import TalkDeck.Proofs.Deck.Link

/-
The links of a line are the leftmost ones that do not overlap.

What a text opens with depends on its first characters only (`Inline.open?_eq_some_iff`).  Reading a
line from left to right tries every character that no earlier link covers, so each occurrence of a
link starts inside a link that was found; the theorem this file exists for is
`Inline.ofLines_leftmost`.
-/

namespace TalkDeck
namespace Inline

open Text

/-! ## What a text opens with -/

/-- Parts that a link of the form can have. -/
structure Raw.Fits (f : Form) (r : Raw) : Prop where
  label : ']' ∉ r.label
  bare : r.label = [] → f.bareLabel = true
  admits : f.admits r.type = true
  type : ∀ c ∈ r.type, c ≠ '?' ∧ c ≠ ')'
  query : ∀ q ∈ r.query, ')' ∉ q

/-- The text of a link before its type. -/
def Raw.opening (f : Form) (r : Raw) : List Char := ['['] ++ r.label ++ [']', '('] ++ f.scheme

theorem Raw.text_eq (f : Form) (r : Raw) : r.text f = r.opening f ++ r.type ++ ending r.query := by
  unfold text opening ending
  exact List.append_assoc _ _ _

theorem Raw.length_opening (f : Form) (r : Raw) : (r.opening f).length = r.typeStart f := by
  simp only [opening, typeStart, List.length_append, List.length_cons, List.length_nil]
  omega

theorem Raw.length_text_pos (f : Form) (r : Raw) : 0 < (r.text f).length := by
  simp [text]

theorem not_mem_takeWhile_ne (c : Char) (cs : List Char) : c ∉ cs.takeWhile (· != c) := by
  intro hmem
  simpa using List.mem_takeWhile_imp hmem

theorem ending?_free {cs : List Char} {query : Option (List Char)} (h : ending? cs = some query) :
    ∀ q ∈ query, ')' ∉ q := by
  rintro q hq
  obtain rfl := Option.mem_def.mp hq
  unfold ending? at h
  split at h
  · next rest =>
    split at h
    · cases h
    · cases h
      exact not_mem_takeWhile_ne ')' rest
  · cases h
  · cases h

theorem ending?_ending {query : Option (List Char)} (h : ∀ q ∈ query, ')' ∉ q) (tail : List Char) :
    ending? (Raw.ending query ++ tail) = some query := by
  cases query with
  | none => rfl
  | some q =>
    have hq : ∀ c ∈ q, (c != ')') = true := by
      intro c hc
      rw [bne_iff_ne]
      rintro rfl
      exact h q rfl hc
    obtain ⟨htake, hdrop⟩ := takeWhile_append_stop hq (bne_self_eq_false ')') tail
    show ending? ('?' :: (q ++ [')'] ++ tail)) = _
    rw [List.append_assoc, List.singleton_append, ending?, htake, hdrop]
    rfl

/-- What follows the type begins with a character that no type has. -/
theorem exists_ending (query : Option (List Char)) (tail : List Char) :
    ∃ c rest, Raw.ending query ++ tail = c :: rest ∧ (c != '?' && c != ')') = false := by
  cases query with
  | none => exact ⟨')', tail, rfl, rfl⟩
  | some q => exact ⟨'?', q ++ [')'] ++ tail, rfl, rfl⟩

theorem fits_of_open? {f : Form} {cs : List Char} {r : Raw} (h : open? f cs = some r) :
    r.Fits f := by
  unfold open? at h
  split at h
  · next cs =>
    dsimp only at h
    split at h
    · cases h
    · next hlabel =>
      obtain ⟨rest, -, h⟩ := Option.bind_eq_some_iff.mp h
      split at h
      · next hadmits =>
        obtain ⟨query, hquery, hr⟩ := Option.bind_eq_some_iff.mp h
        obtain rfl := Option.some.inj hr
        refine ⟨not_mem_takeWhile_ne ']' cs, ?_, hadmits, ?_, ending?_free hquery⟩
        · intro hnil
          simpa [show cs.takeWhile (· != ']') = [] from hnil] using hlabel
        · intro c hc
          simpa using List.mem_takeWhile_imp hc
      · cases h
  · cases h

/-- A link is what its text opens with. -/
theorem open?_of_fits {f : Form} {r : Raw} (h : r.Fits f) (tail : List Char) :
    open? f (r.text f ++ tail) = some r := by
  have hlabel : ∀ c ∈ r.label, (c != ']') = true := by
    intro c hc
    rw [bne_iff_ne]
    rintro rfl
    exact h.label hc
  have htype : ∀ c ∈ r.type, (c != '?' && c != ')') = true := by
    intro c hc
    rw [Bool.and_eq_true, bne_iff_ne, bne_iff_ne]
    exact h.type c hc
  have hbare : (r.label.isEmpty && !f.bareLabel) = false := by
    cases hl : r.label with
    | nil => rw [h.bare hl]; rfl
    | cons c cs => rfl
  obtain ⟨c, rest, hrest, hc⟩ := exists_ending r.query tail
  have hending := ending?_ending h.query tail
  rw [hrest] at hending
  obtain ⟨htake, hdrop⟩ := takeWhile_append_stop htype hc rest
  obtain ⟨hlabelTake, hlabelDrop⟩ := takeWhile_append_stop hlabel
    (bne_self_eq_false ']') ('(' :: (f.scheme ++ (r.type ++ c :: rest)))
  rw [Raw.text_append, hrest]
  show open? f ('[' :: (r.label ++ ']' :: '(' :: (f.scheme ++ (r.type ++ c :: rest)))) = _
  have hstrip : strip? ([']', '('] ++ f.scheme)
      (']' :: '(' :: (f.scheme ++ (r.type ++ c :: rest))) = some (r.type ++ c :: rest) :=
    strip?_eq_some_iff.mpr (by simp)
  rw [open?]
  simp only [hlabelTake, hlabelDrop, hbare, hstrip]
  simp only [Option.bind_eq_bind, Option.bind_some, htake, hdrop, h.admits, hending]
  rfl

theorem open?_eq_some_iff {f : Form} {cs : List Char} {r : Raw} :
    open? f cs = some r ↔ r.Fits f ∧ r.text f <+: cs := by
  constructor
  · intro h
    exact ⟨fits_of_open? h, open?_isPrefix h⟩
  · rintro ⟨h, tail, rfl⟩
    exact open?_of_fits h tail

/-! ## Reading from left to right -/

theorem le_of_mem_scan {f : Form} {skip start : Nat} {cs : List Char} {m : Nat × Raw}
    (h : m ∈ scan f skip start cs) : start + skip ≤ m.1 := by
  induction cs generalizing skip start with
  | nil => cases skip <;> cases h
  | cons c cs ih =>
    cases skip with
    | succ skip =>
      have := ih h
      omega
    | zero =>
      rw [scan] at h
      split at h
      · rcases List.mem_cons.mp h with rfl | h
        · exact Nat.le_refl _
        · have := ih h
          omega
      · have := ih h
        omega

theorem fits_of_mem_scan {f : Form} {skip start : Nat} {cs : List Char} {m : Nat × Raw}
    (h : m ∈ scan f skip start cs) : m.2.Fits f := by
  induction cs generalizing skip start with
  | nil => cases skip <;> cases h
  | cons c cs ih =>
    cases skip with
    | succ skip => exact ih h
    | zero =>
      rw [scan] at h
      split at h
      · next hr =>
        rcases List.mem_cons.mp h with rfl | h
        · exact (open?_eq_some_iff.mp hr).1
        · exact ih h
      · exact ih h

/-- Each link ends before the next one starts. -/
theorem pairwise_scan (f : Form) (skip start : Nat) (cs : List Char) :
    (scan f skip start cs).Pairwise fun a b => a.1 + (a.2.text f).length ≤ b.1 := by
  induction cs generalizing skip start with
  | nil => cases skip <;> exact List.Pairwise.nil
  | cons c cs ih =>
    cases skip with
    | succ skip => exact ih skip (start + 1)
    | zero =>
      rw [scan]
      split
      · next r _ =>
        refine List.Pairwise.cons (fun m hm => ?_) (ih _ _)
        have hle := le_of_mem_scan hm
        have hpos := r.length_text_pos f
        show start + (r.text f).length ≤ m.1
        omega
      · exact ih 0 (start + 1)

/-- A link that the text opens with after `k` characters starts inside a link that is found, unless
those characters are passed over. -/
theorem exists_mem_scan {f : Form} {skip k : Nat} {cs : List Char} {r : Raw} (start : Nat)
    (hk : skip ≤ k) (h : open? f (cs.drop k) = some r) :
    ∃ m ∈ scan f skip start cs, m.1 ≤ start + k ∧ start + k < m.1 + (m.2.text f).length := by
  induction cs generalizing skip start k with
  | nil =>
    rw [List.drop_nil] at h
    cases h
  | cons c cs ih =>
    have hlater : ∀ {skip j}, skip ≤ j → k = j + 1 →
        ∃ m ∈ scan f skip (start + 1) cs,
          m.1 ≤ start + k ∧ start + k < m.1 + (m.2.text f).length := by
      rintro skip j hj rfl
      obtain ⟨m, hm, hle, hlt⟩ := ih (start + 1) hj h
      exact ⟨m, hm, by omega, by omega⟩
    cases skip with
    | succ skip => exact hlater (j := k - 1) (by omega) (by omega)
    | zero =>
      rw [scan]
      split
      · next r' _ =>
        -- Inside the link that is found here, or after it.
        rcases Nat.lt_or_ge k (r'.text f).length with hlt | hge
        · exact ⟨(start, r'), List.mem_cons_self, Nat.le_add_right _ _, Nat.add_lt_add_left hlt _⟩
        · have hpos := r'.length_text_pos f
          obtain ⟨m, hm, hcovers⟩ := hlater (j := k - 1) (Nat.sub_le_sub_right hge 1) (by omega)
          exact ⟨m, List.mem_cons_of_mem _ hm, hcovers⟩
      · next hnone =>
        cases k with
        | zero =>
          rw [List.drop_zero, hnone] at h
          cases h
        | succ k => exact hlater (Nat.zero_le k) rfl

/-! ## The links of a line -/

/-- The leftmost links with parts of a kind, on a line: they follow each other without overlap, each
stands in the line with its type at its place, and none starts outside of them. -/
structure Leftmost (f : Form) (kind : Raw → Prop) (n : Nat) (l : Line) (links : List Inline) :
    Prop where
  apart : links.Pairwise fun a b => a.range.stop.character ≤ b.range.start.character
  stand : ∀ a ∈ links, ∃ before r after, kind r ∧ l = before ++ r.text f ++ after ∧
    a.range = Range.onLine n before.length (before ++ r.text f).length ∧
    a.typeRange =
      Range.onLine n (before ++ r.opening f).length (before ++ r.opening f ++ r.type).length ∧
    a.label = String.ofList r.label ∧ a.type = String.ofList r.type
  cover : ∀ before r after, kind r → l = before ++ r.text f ++ after →
    ∃ a ∈ links, a.range.start.character ≤ before.length ∧
      before.length < a.range.stop.character

/-- A link stands in its line with the parts it was read from. -/
theorem exists_raw_of_mem_ofLine {f : Form} {n : Nat} {l : Line} {a : Inline}
    (h : a ∈ ofLine f n l) :
    ∃ before r after, r.Fits f ∧ l = before ++ r.text f ++ after ∧
      a = ofRaw f n before.length r := by
  obtain ⟨⟨offset, r⟩, hmem, rfl⟩ := List.mem_map.mp h
  obtain ⟨k, hk, after, hafter⟩ := mem_scan hmem
  obtain rfl : k = offset := by omega
  have hlength : (l.take k).length = k := by
    have hpos := r.length_text_pos f
    have hle := congrArg List.length hafter
    rw [List.length_append, List.length_drop] at hle
    rw [List.length_take]
    omega
  refine ⟨l.take k, r, after, fits_of_mem_scan hmem, ?_, ?_⟩
  · rw [List.append_assoc, hafter, List.take_append_drop]
  · rw [hlength]

theorem leftmost_ofLine (f : Form) (n : Nat) (l : Line) :
    Leftmost f (Raw.Fits f) n l (ofLine f n l) where
  apart := (pairwise_scan f 0 0 l).map _ fun _ _ h => h
  stand := by
    intro a ha
    obtain ⟨before, r, after, hr, hl, rfl⟩ := exists_raw_of_mem_ofLine ha
    refine ⟨before, r, after, hr, hl, ?_, ?_, rfl, rfl⟩
    · rw [List.length_append]
      rfl
    · show Range.onLine n (before.length + r.typeStart f)
        (before.length + r.typeStart f + r.type.length) = _
      simp only [List.length_append, r.length_opening]
  cover := by
    rintro before r after hr rfl
    have hopen : open? f ((before ++ r.text f ++ after).drop before.length) = some r := by
      rw [List.append_assoc, List.drop_left, open?_eq_some_iff]
      exact ⟨hr, List.prefix_append _ _⟩
    obtain ⟨m, hm, hle, hlt⟩ := exists_mem_scan 0 (Nat.zero_le _) hopen
    rw [Nat.zero_add] at hle hlt
    exact ⟨_, List.mem_map_of_mem hm, hle, hlt⟩

/-- Which parts a form admits is all that is known of its links. -/
theorem Leftmost.congr {f : Form} {kind kind' : Raw → Prop} {n : Nat} {l : Line}
    {links : List Inline} (hkind : ∀ r, kind r ↔ kind' r) (h : Leftmost f kind n l links) :
    Leftmost f kind' n l links where
  apart := h.apart
  stand := by
    intro a ha
    obtain ⟨before, r, after, hr, hrest⟩ := h.stand a ha
    exact ⟨before, r, after, (hkind r).mp hr, hrest⟩
  cover := fun before r after hr => h.cover before r after ((hkind r).mpr hr)

theorem line_of_mem_ofLine {f : Form} {n : Nat} {l : Line} {a : Inline} (h : a ∈ ofLine f n l) :
    a.range.start.line = n := by
  obtain ⟨m, -, rfl⟩ := List.mem_map.mp h
  rfl

theorem ofLines_cons (f : Form) (first : Nat) (l : Line) (ls : List Line) :
    ofLines f first (l :: ls) = ofLine f first l ++ ofLines f (first + 1) ls := by
  unfold ofLines
  rw [List.zipIdx_cons, List.flatMap_cons]

theorem le_of_mem_ofLines {f : Form} {first : Nat} {ls : List Line} {a : Inline}
    (h : a ∈ ofLines f first ls) : first ≤ a.range.start.line := by
  obtain ⟨⟨l, n⟩, hmem, ha⟩ := List.mem_flatMap.mp h
  rw [line_of_mem_ofLine ha]
  exact List.le_snd_of_mem_zipIdx hmem

/-- The links on one of several lines are the links of that line. -/
theorem filter_ofLines (f : Form) (first : Nat) (ls : List Line) (i : Fin ls.length) :
    (ofLines f first ls).filter (fun a => decide (a.range.start.line = first + i)) =
      ofLine f (first + i) ls[i] := by
  induction ls generalizing first with
  | nil => exact i.elim0
  | cons l ls ih =>
    rw [ofLines_cons, List.filter_append]
    refine Fin.cases ?_ (fun j => ?_) i
    · have hhere : (ofLine f first l).filter (fun a => decide (a.range.start.line = first)) =
          ofLine f first l :=
        List.filter_eq_self.mpr fun a ha => decide_eq_true (line_of_mem_ofLine ha)
      have hlater : (ofLines f (first + 1) ls).filter
          (fun a => decide (a.range.start.line = first)) = [] := by
        rw [List.filter_eq_nil_iff]
        intro a ha heq
        have := le_of_mem_ofLines ha
        have := of_decide_eq_true heq
        omega
      show List.filter (fun a => decide (a.range.start.line = first)) _ ++
        List.filter (fun a => decide (a.range.start.line = first)) _ = ofLine f first l
      rw [hhere, hlater, List.append_nil]
    · have hline : first + (j.succ : Nat) = first + 1 + j := by
        rw [Fin.val_succ]
        omega
      have hhere : (ofLine f first l).filter
          (fun a => decide (a.range.start.line = first + 1 + j)) = [] := by
        rw [List.filter_eq_nil_iff]
        intro a ha heq
        have := line_of_mem_ofLine ha
        have := of_decide_eq_true heq
        omega
      rw [hline, hhere, List.nil_append]
      exact ih (first + 1) j

/-- The parts of a link that runs an action. -/
structure IsAction (r : Raw) : Prop where
  label_ne : r.label ≠ []
  label : ']' ∉ r.label
  type_ne : r.type ≠ []
  type : ∀ c ∈ r.type, ('a' ≤ c ∧ c ≤ 'z') ∨ c = '.'
  query : ∀ q ∈ r.query, ')' ∉ q

/-- The parts of a directive that renders something. -/
structure IsDirective (r : Raw) : Prop where
  label : ']' ∉ r.label
  type : String.ofList r.type ∈ ["file", "command", "diff"]
  query : ∀ q ∈ r.query, ')' ∉ q

/-- The types of action links. -/
theorem admits_actionForm_iff {t : List Char} : actionForm.admits t = true ↔
    t ≠ [] ∧ ∀ c ∈ t, ('a' ≤ c ∧ c ≤ 'z') ∨ c = '.' := by
  show (!t.isEmpty && t.all fun c => decide ('a' ≤ c ∧ c ≤ 'z') || c == '.') = true ↔ _
  rw [Bool.and_eq_true, Bool.not_eq_true', List.isEmpty_eq_false_iff, List.all_eq_true]
  simp only [Bool.or_eq_true, decide_eq_true_iff, beq_iff_eq]

/-- The types of directives. -/
theorem admits_renderForm_iff {t : List Char} :
    renderForm.admits t = true ↔ String.ofList t ∈ ["file", "command", "diff"] := by
  show (["file", "command", "diff"].any (·.toList == t)) = true ↔ _
  simp only [List.any_eq_true, beq_iff_eq]
  constructor
  · rintro ⟨s, hs, rfl⟩
    rwa [String.ofList_toList]
  · intro ht
    exact ⟨_, ht, String.toList_ofList⟩

theorem fits_actionForm_iff (r : Raw) : r.Fits actionForm ↔ IsAction r := by
  constructor
  · intro h
    obtain ⟨hne, hletters⟩ := admits_actionForm_iff.mp h.admits
    exact ⟨fun hnil => absurd (h.bare hnil) Bool.false_ne_true, h.label, hne, hletters, h.query⟩
  · intro h
    refine ⟨h.label, fun hnil => absurd hnil h.label_ne,
      admits_actionForm_iff.mpr ⟨h.type_ne, h.type⟩, fun c hc => ?_, h.query⟩
    have hletter := h.type c hc
    constructor <;> rintro rfl <;> exact absurd hletter (by decide)

theorem fits_renderForm_iff (r : Raw) : r.Fits renderForm ↔ IsDirective r := by
  constructor
  · intro h
    exact ⟨h.label, admits_renderForm_iff.mp h.admits, h.query⟩
  · intro h
    refine ⟨h.label, fun _ => rfl, admits_renderForm_iff.mpr h.type, fun c hc => ?_, h.query⟩
    have hwords : ∀ t ∈ ["file", "command", "diff"],
        (t.toList.all fun c => c != '?' && c != ')') = true := by decide
    have hletter := List.all_eq_true.mp (hwords _ h.type) c (by rwa [String.toList_ofList])
    simpa using hletter

/-- **Links are found from the left.**  On each of several lines, the links that run an action and
the directives are the leftmost ones that do not overlap. -/
theorem ofLines_leftmost (first : Nat) (ls : List Line) (i : Fin ls.length) :
    Leftmost actionForm IsAction (first + i) ls[i]
        ((ofLines actionForm first ls).filter
          fun a => decide (a.range.start.line = first + i)) ∧
      Leftmost renderForm IsDirective (first + i) ls[i]
        ((ofLines renderForm first ls).filter
          fun a => decide (a.range.start.line = first + i)) := by
  rw [filter_ofLines, filter_ofLines]
  exact ⟨(leftmost_ofLine actionForm _ _).congr fits_actionForm_iff,
    (leftmost_ofLine renderForm _ _).congr fits_renderForm_iff⟩

end Inline
end TalkDeck
