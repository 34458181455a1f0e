import Mathlib.Data.List.TakeWhile
import TalkDeck.Proofs.Yaml.Loose

/-
Reading text without quotes.

A text of a layout consists of words with blanks between them (`Words`), and reading it takes all of
it and the gap behind it (`readPlain_words`).  A key is one word, and reading it stops at
its colon (`readPlain_key`).
-/

namespace TalkDeck
namespace Yaml

open Layout

/-! ## Cursors on known text -/

namespace Mark

/-- The mark `n` columns further on. -/
def right (m : Mark) (n : Nat) : Mark := ⟨m.index + n, m.line, m.column + n⟩

/-- The mark after a line feed. -/
def below (m : Mark) : Mark := ⟨m.index + 1, m.line + 1, 0⟩

@[simp]
theorem right_zero (m : Mark) : m.right 0 = m := rfl

theorem right_right (m : Mark) (a b : Nat) : (m.right a).right b = m.right (a + b) := by
  simp only [right, Nat.add_assoc]

/-- The mark after lines of blanks and `d` blanks more. -/
def past (m : Mark) (d : Nat) : List Nat → Mark
  | [] => m.right d
  | n :: ns => (m.right n).below.past d ns

theorem line_past (m : Mark) (d : Nat) (ns : List Nat) :
    (m.past d ns).line = m.line + ns.length := by
  induction ns generalizing m with
  | nil => rfl
  | cons n ns ih =>
    rw [past, ih, List.length_cons]
    show m.line + 1 + ns.length = m.line + (ns.length + 1)
    omega

theorem column_past (m : Mark) (d : Nat) {ns : List Nat} (hns : ns ≠ []) :
    (m.past d ns).column = d := by
  induction ns generalizing m with
  | nil => exact absurd rfl hns
  | cons n ns ih =>
    cases ns with
    | nil =>
      show 0 + d = d
      omega
    | cons k ns => exact ih _ (List.cons_ne_nil k ns)

end Mark

theorem isBreak_of_isInline {c : Char} (h : isInline c = true) : isBreak c = false := by
  simp only [isInline, Bool.and_eq_true, Bool.not_eq_true'] at h
  exact h.1.1.2

theorem ne_nul_of_isInline {c : Char} (h : isInline c = true) : c ≠ nul := by
  rintro rfl
  revert h
  decide

theorem ne_newline_of_isInline {u : List Char} (h : ∀ c ∈ u, isInline c = true) :
    ∀ c ∈ u, c ≠ '\n' := by
  rintro c hc rfl
  exact absurd (h _ hc) (by decide)

theorem isInline_space : isInline ' ' = true := by decide

theorem isInline_of_mem_blanks {n : Nat} {c : Char} (h : c ∈ blanks n) : isInline c = true := by
  rw [List.eq_of_mem_replicate h]
  exact isInline_space

/-- On a line only the space is a gap. -/
theorem isWideGap_of_isInline {c : Char} (h : isInline c = true) (hc : c ≠ ' ') :
    isWideGap c = false := by
  have hbreak := isBreak_of_isInline h
  have hnul := ne_nul_of_isInline h
  have htab : c ≠ '\t' := by
    simp only [isInline, Bool.and_eq_true, bne_iff_ne] at h
    exact h.1.2
  simp [isWideGap, isGap, isBreakOrEnd, hbreak, hnul, htab, hc]

namespace Cursor

theorem moved_of_isInline {c : Char} (h : isInline c = true) (m : Mark) (next : Char) :
    moved m c next = m.right 1 := by
  have hbreak := isBreak_of_isInline h
  have hcr : (c == '\r') = false := by
    simp only [isBreak, Bool.or_eq_false_iff] at hbreak
    exact hbreak.1.1.1.1
  have hbom : (c.toNat == 0xFEFF) = false := by
    simp only [isInline, Bool.and_eq_true, bne_iff_ne] at h
    exact beq_eq_false_iff_ne.mpr h.2
  simp [moved, hcr, hbreak, hbom, Mark.right]

theorem skip_append {u : List Char} (h : ∀ c ∈ u, isInline c = true) (r : List Char) (m : Mark) :
    skip u.length ⟨u ++ r, m⟩ = ⟨r, m.right u.length⟩ := by
  induction u generalizing m with
  | nil => rfl
  | cons c u ih =>
    have hc := h c List.mem_cons_self
    rw [List.length_cons, List.cons_append, skip, next]
    simp only [moved_of_isInline hc]
    rw [ih fun d hd => h d (List.mem_cons_of_mem c hd), Mark.right_right, Nat.add_comm 1]

theorem span_append {u : List Char} {p : Char → Bool} (h : ∀ c ∈ u, isInline c = true)
    (hu : ∀ c ∈ u, p c = true) {r : List Char} (hr : r.head?.any p = false) (m : Mark) :
    span ⟨u ++ r, m⟩ p = (u, ⟨r, m.right u.length⟩) := by
  have hrun : (u ++ r).takeWhile p = u := by
    rw [List.takeWhile_append_of_pos hu]
    cases r with
    | nil => simp
    | cons c r =>
      have hc : p c = false := hr
      rw [List.takeWhile_cons_of_neg (by simp [hc]), List.append_nil]
  simp only [span, hrun, skip_append h]

theorem span_blanks {r : List Char} (hr : r.head? ≠ some ' ') (n : Nat) (m : Mark) :
    span ⟨blanks n ++ r, m⟩ (· == ' ') = (blanks n, ⟨r, m.right n⟩) := by
  rw [span_append (fun _ => isInline_of_mem_blanks)
    (fun c hc => by rw [List.eq_of_mem_replicate hc]; rfl) (by cases r <;> simp_all), length_blanks]

theorem dropSpaces_append {r : List Char} (hr : r.head? ≠ some ' ') (n : Nat) (m : Mark) :
    dropSpaces ⟨blanks n ++ r, m⟩ = ⟨r, m.right n⟩ := by
  rw [dropSpaces, dropWhile, span_blanks hr]

theorem lineBreak_newline (r : List Char) (m : Mark) :
    lineBreak ⟨'\n' :: r, m⟩ = (['\n'], ⟨r, m.below⟩) := rfl

theorem lineBreak_of_not_isBreak {c : Cursor} (h : isBreak c.peek = false) :
    c.lineBreak = ([], c) := by
  have hall := h
  simp only [isBreak, Bool.or_eq_false_iff] at hall
  obtain ⟨⟨⟨⟨hcr, hlf⟩, hnel⟩, -⟩, -⟩ := hall
  simp [lineBreak, hcr, hlf, hnel, h]

end Cursor

/-! ## Where a value ends -/

/-- A text at which a token can begin. -/
def Starts (cs : List Char) : Prop := ∃ c r, cs = c :: r ∧ isInline c = true ∧ c ≠ ' ' ∧ c ≠ '#'

/-- A text at which a token can begin, also at the left edge. -/
structure Opens (cs : List Char) : Prop where
  first : Starts cs
  no_dashes : cs.take 3 ≠ ['-', '-', '-']
  no_dots : cs.take 3 ≠ ['.', '.', '.']

theorem Opens.atSeparator {cs : List Char} (h : Opens cs) (m : Mark) :
    Cursor.atSeparator ⟨cs, m⟩ = false := by
  simp [Cursor.atSeparator, h.no_dashes, h.no_dots]

/-- Blanks in the gaps do not make a text begin elsewhere. -/
theorem Starts.loosens {cs ds : List Char} (h : Starts cs) (hloose : Loosens cs ds) : Starts ds := by
  obtain ⟨c, r, rfl, hc, hspace, hhash⟩ := h
  cases hloose with
  | line => exact absurd hc (by decide)
  | char _ hrest => exact ⟨c, _, rfl, hc, hspace, hhash⟩

theorem Opens.loosens {cs ds : List Char} (h : Opens cs) (hloose : Loosens cs ds) : Opens ds := by
  have hmark : ∀ u : List Char, u.length = 3 → ' ' ∉ u → '\n' ∉ u → cs.take 3 ≠ u →
      ds.take 3 ≠ u := by
    intro u hlength hspace hnewline hcs hds
    refine hcs ?_
    have hu : ∀ c ∈ u, c ≠ ' ' ∧ c ≠ '\n' := fun c hc =>
      ⟨fun heq => hspace (heq ▸ hc), fun heq => hnewline (heq ▸ hc)⟩
    have hprefix : u <+: cs := hloose.prefix_of_prefix hu (by rw [← hds]; exact List.take_prefix 3 ds)
    rw [← hlength, ← List.prefix_iff_eq_take.mp hprefix]
  exact ⟨h.first.loosens hloose, hmark _ rfl (by decide) (by decide) h.no_dashes,
    hmark _ rfl (by decide) (by decide) h.no_dots⟩

/-- What comes after the gap behind a text in a block of the given indentation: the end, or, on a
line of its own, a text that begins further out. -/
def Ends (indent : Int) (ns : List Nat) (d : Nat) (cs : List Char) : Prop :=
  cs = [] ∨ ns ≠ [] ∧ Opens cs ∧ (d : Int) < indent

theorem atSeparator_gap {cs : List Char} (h : cs = [] ∨ Opens cs) (ns : List Nat) (d : Nat) (m : Mark) :
    Cursor.atSeparator ⟨emptyLines ns ++ (blanks d ++ cs), m⟩ = false := by
  rcases gap_cases ns d cs with ⟨rfl, rfl⟩ | ⟨c, r, heq, hc⟩
  · rcases h with rfl | h
    · rfl
    · exact h.atSeparator m
  · rw [heq]
    rcases hc with rfl | rfl <;> simp [Cursor.atSeparator]

namespace Token

theorem plainBreaks_spaces (d : Nat) (fuel : Nat) (r : List Char) (m : Mark) (breaks : List Char) :
    plainBreaks (d + fuel) ⟨blanks d ++ r, m⟩ breaks = plainBreaks fuel ⟨r, m.right d⟩ breaks := by
  induction d generalizing m with
  | zero => rw [Nat.zero_add]; rfl
  | succ d ih =>
    have hstep : plainBreaks (d + fuel + 1) ⟨blanks (d + 1) ++ r, m⟩ breaks =
        plainBreaks (d + fuel) ⟨blanks d ++ r, m.right 1⟩ breaks := by
      rw [plainBreaks, if_pos (by rfl)]
      rfl
    rw [Nat.add_right_comm, hstep, ih, Mark.right_right, Nat.add_comm 1]

theorem plainBreaks_stop {cs : List Char} (h : cs = [] ∨ Starts cs) (fuel : Nat) (m : Mark)
    (breaks : List Char) : plainBreaks fuel ⟨cs, m⟩ breaks = (false, breaks, ⟨cs, m⟩) := by
  cases fuel with
  | zero => rfl
  | succ fuel =>
    rcases h with rfl | ⟨c, r, rfl, hc, hspace, -⟩
    · rfl
    · have hbreak := isBreak_of_isInline hc
      show plainBreaks (fuel + 1) ⟨c :: r, m⟩ breaks = _
      simp [plainBreaks, Cursor.peek, hspace, hbreak]

/-- Lines of blanks are passed over, up to the text after them. -/
theorem plainBreaks_gap {cs : List Char} (h : cs = [] ∨ Opens cs) (ns : List Nat) (d : Nat)
    {fuel : Nat} (hfuel : (emptyLines ns ++ (blanks d ++ cs)).length ≤ fuel) (m : Mark)
    (breaks : List Char) :
    ∃ text, plainBreaks fuel ⟨emptyLines ns ++ (blanks d ++ cs), m⟩ breaks =
      (false, breaks ++ text, ⟨cs, m.past d ns⟩) := by
  induction ns generalizing fuel m breaks with
  | nil =>
    obtain ⟨fuel, rfl⟩ : ∃ k, fuel = d + k := by
      refine Nat.exists_eq_add_of_le (Nat.le_trans ?_ hfuel)
      simp
    refine ⟨[], ?_⟩
    rw [emptyLines_nil, List.nil_append, plainBreaks_spaces,
      plainBreaks_stop (h.imp_right Opens.first), List.append_nil]
    rfl
  | cons n ns ih =>
    rw [emptyLines_cons, List.append_assoc, List.cons_append] at hfuel ⊢
    obtain ⟨fuel, rfl⟩ : ∃ k, fuel = n + (k + 1) := by
      refine ⟨fuel - n - 1, ?_⟩
      simp only [List.length_append, List.length_cons, length_blanks] at hfuel
      omega
    have hline : plainBreaks (fuel + 1) ⟨'\n' :: (emptyLines ns ++ (blanks d ++ cs)), m.right n⟩ breaks =
        plainBreaks fuel ⟨emptyLines ns ++ (blanks d ++ cs), (m.right n).below⟩ (breaks ++ ['\n']) := by
      rw [plainBreaks]
      simp [Cursor.peek, Cursor.lineBreak_newline, isBreak, atSeparator_gap h]
    have hrest : (emptyLines ns ++ (blanks d ++ cs)).length ≤ fuel := by
      simp only [List.length_append, List.length_cons, length_blanks] at hfuel ⊢
      omega
    obtain ⟨text, htext⟩ := ih hrest (m.right n).below (breaks ++ ['\n'])
    exact ⟨'\n' :: text, by
      rw [plainBreaks_spaces, hline, htext, List.append_assoc]
      rfl⟩

/-- The gap behind the last word reaches to the text after it. -/
theorem plainGap_gap {indent : Int} {ns : List Nat} {d : Nat} {cs : List Char}
    (h : Ends indent ns d cs) (m : Mark) :
    ∃ text, plainGap ⟨emptyLines ns ++ (blanks d ++ cs), m⟩ =
      ⟨text, !ns.isEmpty, ⟨cs, m.past d ns⟩⟩ := by
  have hcs : cs = [] ∨ Opens cs := h.imp_right fun h => h.2.1
  cases ns with
  | nil =>
    obtain rfl := h.resolve_right fun h => h.1 rfl
    refine ⟨blanks d, ?_⟩
    simp only [emptyLines_nil, List.nil_append, plainGap, Cursor.span_blanks (r := []) (by simp)]
    rfl
  | cons n ns =>
    obtain ⟨text, htext⟩ := plainBreaks_gap hcs ns d
      (Nat.le_succ (emptyLines ns ++ (blanks d ++ cs)).length) (m.right n).below []
    have hline := Cursor.span_blanks (r := '\n' :: (emptyLines ns ++ (blanks d ++ cs))) (by simp) n m
    refine ⟨(if text.isEmpty then [' '] else []) ++ text, ?_⟩
    simp only [emptyLines_cons, List.append_assoc, List.cons_append, plainGap, hline,
      Cursor.peek, List.headD_cons, Cursor.lineBreak_newline, atSeparator_gap hcs,
      Bool.false_eq_true, if_false, htext]
    rfl

/-- In front of a word the gap is the blanks before it. -/
theorem plainGap_blanks {c : Char} {r : List Char} (hr : r.head? = some c) (hc : isInline c = true)
    (hspace : c ≠ ' ') (n : Nat) (m : Mark) :
    plainGap ⟨blanks n ++ r, m⟩ = ⟨blanks n, false, ⟨r, m.right n⟩⟩ := by
  have hpeek : Cursor.peek ⟨r, m.right n⟩ = c := by
    rw [Cursor.peek, List.headD_eq_head?_getD, hr]
    rfl
  simp only [plainGap, Cursor.span_blanks (r := r) (by simpa [hr] using hspace), hpeek,
    isBreak_of_isInline hc, Bool.false_eq_true, if_false]

/-! ## Words -/

/-- Text without a gap that does not end in a colon. -/
structure Word (w : List Char) : Prop where
  ne_nil : w ≠ []
  inline : ∀ c ∈ w, isInline c = true
  solid : ∀ c ∈ w, c ≠ ' '
  no_colon : w.getLast? ≠ some ':'

theorem Word.length_pos {w : List Char} (hw : Word w) : 0 < w.length :=
  List.length_pos_iff.mpr hw.ne_nil

/-- Words with blanks between them, none after the first opening a comment. -/
inductive Words : List Char → Prop where
  | one {w : List Char} (hw : Word w) : Words w
  | more {w u : List Char} {n : Nat} (hw : Word w) (hu : Words u) (hcomment : u.head? ≠ some '#') :
    Words (w ++ (blanks (n + 1) ++ u))

theorem plainRun_append {w tail : List Char} (hinline : ∀ c ∈ w, isInline c = true)
    (hsolid : ∀ c ∈ w, c ≠ ' ') (hcolon : ∀ u, w = u ++ [':'] → isWideGap (tail.headD nul) = false)
    (htail : ∀ c r, tail = c :: r → plainStops false c (r.headD nul) = true) :
    plainRun false (w ++ tail) = w := by
  induction w with
  | nil =>
    cases tail with
    | nil => rfl
    | cons c r => rw [List.nil_append, plainRun, if_pos (htail c r rfl)]
  | cons c w ih =>
    have hgap := isWideGap_of_isInline (hinline c List.mem_cons_self) (hsolid c List.mem_cons_self)
    have hrest := ih (fun d hd => hinline d (List.mem_cons_of_mem c hd))
      (fun d hd => hsolid d (List.mem_cons_of_mem c hd))
      (fun u hu => hcolon (c :: u) (by rw [hu, List.cons_append]))
    have hstop : plainStops false c ((w ++ tail).headD nul) = false := by
      by_cases hc : c = ':'
      · have hnext : isWideGap ((w ++ tail).headD nul) = false := by
          cases w with
          | nil => exact hcolon [] (by rw [hc, List.nil_append])
          | cons d w =>
            exact isWideGap_of_isInline (hinline d (by simp)) (hsolid d (by simp))
        simp only [plainStops, hgap, hnext, Bool.false_and, Bool.and_false, Bool.or_false]
      · simp [plainStops, hgap, hc]
    rw [List.cons_append, plainRun, hstop, hrest]
    rfl

/-- A run ends where a line or a blank begins. -/
theorem plainRun_word {w tail : List Char} (hw : Word w)
    (htail : ∀ c r, tail = c :: r → isWideGap c = true) : plainRun false (w ++ tail) = w := by
  refine plainRun_append hw.inline hw.solid (fun u hu => ?_) fun c r hr => ?_
  · exact absurd (by rw [hu, List.getLast?_concat]) hw.no_colon
  · simp [plainStops, htail c r hr]

theorem Word.peek {w : List Char} (hw : Word w) (tail : List Char) (m : Mark) :
    ∃ c ∈ w, Cursor.peek ⟨w ++ tail, m⟩ = c ∧ w.head? = some c := by
  obtain ⟨c, w, rfl⟩ := List.exists_cons_of_ne_nil hw.ne_nil
  exact ⟨c, List.mem_cons_self, rfl, rfl⟩

theorem Words.inline {u : List Char} (h : Words u) : ∀ c ∈ u, isInline c = true := by
  induction h with
  | one hw => exact hw.inline
  | more hw hu hcomment ih =>
    intro c hc
    rcases List.mem_append.mp hc with hc | hc
    · exact hw.inline c hc
    · rcases List.mem_append.mp hc with hc | hc
      · exact isInline_of_mem_blanks hc
      · exact ih c hc

theorem Words.head? {u : List Char} (h : Words u) : ∃ c, u.head? = some c ∧ c ≠ ' ' := by
  have hhead : ∀ {w : List Char}, Word w → ∀ r, ∃ c, (w ++ r).head? = some c ∧ c ≠ ' ' := by
    intro w hw r
    obtain ⟨c, w, rfl⟩ := List.exists_cons_of_ne_nil hw.ne_nil
    exact ⟨c, rfl, hw.solid c List.mem_cons_self⟩
  cases h with
  | one hw => simpa using hhead hw []
  | more hw hu hcomment => exact hhead hw _

/-- At the end of the text the loop stops. -/
theorem plainLoop_end {s : PlainScalar} {m : Mark} (hs : s.cursor = ⟨[], m⟩) (indent : Int) (fuel : Nat)
    (gap : List Char) : plainLoop false indent fuel s gap = s := by
  cases fuel with
  | zero => rfl
  | succ fuel =>
    rw [plainLoop]
    simp only [hs]
    rfl

/-- One round of the loop takes a word, and the gap behind it says whether there is another. -/
theorem plainLoop_word {w tail : List Char} (hw : Word w) (hcomment : w.head? ≠ some '#')
    (htail : ∀ c r, tail = c :: r → isWideGap c = true) {m : Mark} {g : PlainGap}
    (hgap : plainGap ⟨tail, m.right w.length⟩ = g) (indent : Int) (fuel : Nat) {s : PlainScalar}
    (hs : s.cursor = ⟨w ++ tail, m⟩) (gap : List Char) :
    plainLoop false indent (fuel + 1) s gap =
      if g.text.isEmpty || g.cursor.peek == '#' || decide ((g.cursor.column : Int) < indent) then
        ⟨s.text ++ gap ++ w, m.right w.length, g.lineEnded, g.cursor⟩
      else
        plainLoop false indent fuel
          ⟨s.text ++ gap ++ w, m.right w.length, g.lineEnded, g.cursor⟩ g.text := by
  obtain ⟨a, -, hpeek, hhead⟩ := hw.peek tail m
  have ha : a ≠ '#' := fun heq => hcomment (by rw [hhead, heq])
  rw [plainLoop]
  simp only [hs, hpeek, beq_eq_false_iff_ne.mpr ha, plainRun_word hw htail,
    List.isEmpty_eq_false_iff.mpr hw.ne_nil, Cursor.skip_append hw.inline, hgap, Bool.not_false,
    Bool.true_and, Bool.false_eq_true, if_false]

/-- The last word, with the gap that ends the text. -/
theorem plainLoop_last {w : List Char} (hw : Word w) (hcomment : w.head? ≠ some '#') {indent : Int}
    {ns : List Nat} {d : Nat} {cs : List Char} {m : Mark} (hends : Ends indent ns d cs) (fuel : Nat)
    {s : PlainScalar} (hs : s.cursor = ⟨w ++ (emptyLines ns ++ (blanks d ++ cs)), m⟩)
    (gap : List Char) :
    plainLoop false indent (fuel + 1) s gap =
      ⟨s.text ++ gap ++ w, m.right w.length, !ns.isEmpty, ⟨cs, (m.right w.length).past d ns⟩⟩ := by
  have hwide : ∀ b r, emptyLines ns ++ (blanks d ++ cs) = b :: r → isWideGap b = true := by
    intro b r hr
    rcases gap_cases ns d cs with ⟨rfl, rfl⟩ | ⟨c, q, heq, hc⟩
    · obtain rfl := hends.resolve_right fun h => h.1 rfl
      cases hr
    · rw [heq] at hr
      obtain rfl := (List.cons.inj hr).1
      rcases hc with rfl | rfl <;> rfl
  obtain ⟨text, hgap⟩ := plainGap_gap hends (m.right w.length)
  rw [plainLoop_word hw hcomment hwide hgap indent fuel hs]
  rcases hends with rfl | ⟨hns, -, hd⟩
  · split
    · rfl
    · exact plainLoop_end rfl _ _ _
  · rw [if_pos]
    simp [Cursor.column, Mark.column_past _ d hns, hd]

/-- A word with another one after it. -/
theorem plainLoop_next {w r : List Char} (hw : Word w) (hcomment : w.head? ≠ some '#') {b : Char}
    (hb : r.head? = some b) (hinline : isInline b = true) (hspace : b ≠ ' ') (hnext : b ≠ '#')
    {indent : Int} {n : Nat} {m : Mark} (hindent : indent ≤ m.column) (fuel : Nat) {s : PlainScalar}
    (hs : s.cursor = ⟨w ++ (blanks (n + 1) ++ r), m⟩) (gap : List Char) :
    plainLoop false indent (fuel + 1) s gap =
      plainLoop false indent fuel ⟨s.text ++ gap ++ w, m.right w.length, false,
        ⟨r, m.right (w.length + (n + 1))⟩⟩ (blanks (n + 1)) := by
  have hwide : ∀ c q, blanks (n + 1) ++ r = c :: q → isWideGap c = true := by
    intro c q hq
    rw [blanks, List.replicate_succ] at hq
    cases hq
    rfl
  have hgap := plainGap_blanks hb hinline hspace (n + 1) (m.right w.length)
  rw [Mark.right_right] at hgap
  have hpeek : Cursor.peek ⟨r, m.right (w.length + (n + 1))⟩ = b := by
    rw [Cursor.peek, List.headD_eq_head?_getD, hb]
    rfl
  have hcolumn : ¬ ((m.right (w.length + (n + 1))).column : Int) < indent := by
    simp only [Mark.right]
    omega
  rw [plainLoop_word hw hcomment hwide hgap indent fuel hs, if_neg]
  simp [hpeek, hnext, hcolumn, Cursor.column, blanks, List.replicate_succ]

/-- The loop takes all words and the gap behind them. -/
theorem plainLoop_words {u : List Char} (h : Words u) (hcomment : u.head? ≠ some '#') {indent : Int}
    {ns : List Nat} {d : Nat} {cs : List Char} {m : Mark} (hindent : indent ≤ m.column)
    (hends : Ends indent ns d cs) {fuel : Nat} (hfuel : u.length ≤ fuel)
    (s : PlainScalar) (hs : s.cursor = ⟨u ++ (emptyLines ns ++ (blanks d ++ cs)), m⟩) (gap : List Char) :
    plainLoop false indent fuel s gap =
      ⟨s.text ++ gap ++ u, m.right u.length, !ns.isEmpty, ⟨cs, (m.right u.length).past d ns⟩⟩ := by
  induction h generalizing m fuel s gap with
  | @one w hw =>
    obtain ⟨fuel, rfl⟩ : ∃ k, fuel = k + 1 :=
      Nat.exists_eq_succ_of_ne_zero (Nat.ne_of_gt (Nat.lt_of_lt_of_le hw.length_pos hfuel))
    exact plainLoop_last hw hcomment hends fuel hs gap
  | @more w u n hw hu hnext ih =>
    obtain ⟨b, hb, hspace⟩ := hu.head?
    have hinline := hu.inline b (List.mem_of_head? hb)
    have hhash : w.head? ≠ some '#' := fun heq => hcomment (by rw [List.head?_append, heq]; rfl)
    have hpos := hw.length_pos
    have hlength : (w ++ (blanks (n + 1) ++ u)).length = w.length + (n + 1) + u.length := by
      simp only [List.length_append, length_blanks, Nat.add_assoc]
    rw [hlength] at hfuel
    obtain ⟨fuel, rfl⟩ : ∃ k, fuel = k + 1 := Nat.exists_eq_succ_of_ne_zero (by omega)
    have hr : (u ++ (emptyLines ns ++ (blanks d ++ cs))).head? = some b := by
      rw [List.head?_append, hb]
      rfl
    simp only [List.append_assoc] at hs
    rw [plainLoop_next hw hhash hr hinline hspace (fun heq => hnext (by rw [hb, heq])) hindent fuel hs,
      ih (m := m.right (w.length + (n + 1))) hnext (by simp only [Mark.right]; omega) (by omega) _ rfl,
      hlength, Mark.right_right]
    simp only [List.append_assoc]

/-! ## Texts and keys of a layout -/

theorem flows_append {u v : List Char} (h : flows (u ++ v) = true) : flows v = true := by
  induction u with
  | nil => exact h
  | cons c u ih =>
    cases huv : u ++ v with
    | nil =>
      rw [(List.append_eq_nil_iff.mp huv).2]
      rfl
    | cons d r =>
      rw [List.cons_append, huv, flows, Bool.and_eq_true] at h
      exact ih (by rw [huv]; exact h.2)

/-- The last word ends without a colon, and so does one before a blank. -/
theorem getLast?_ne_colon {w tail : List Char} (h : flows (w ++ tail) = true)
    (htail : tail = [] ∨ ∃ r, tail = ' ' :: r) : w.getLast? ≠ some ':' := by
  intro hlast
  obtain ⟨u, rfl⟩ := List.getLast?_eq_some_iff.mp hlast
  rw [List.append_assoc] at h
  have hcolon := flows_append h
  rcases htail with rfl | ⟨r, rfl⟩
  · cases hcolon
  · cases hcolon

/-- A text up to its first blank. -/
theorem exists_word_append (u : List Char) :
    ∃ w r, u = w ++ r ∧ (∀ c ∈ w, c ≠ ' ') ∧ (r = [] ∨ ∃ r', r = ' ' :: r') := by
  refine ⟨u.takeWhile (· != ' '), u.dropWhile (· != ' '), List.takeWhile_append_dropWhile.symm,
    fun c hc => bne_iff_ne.mp (List.mem_takeWhile_imp (p := (· != ' ')) hc), ?_⟩
  cases hr : u.dropWhile (· != ' ') with
  | nil => exact Or.inl rfl
  | cons c r =>
    have hc := List.head?_dropWhile_not (· != ' ') u
    rw [hr, List.head?_cons] at hc
    obtain rfl : c = ' ' := by simpa using hc
    exact Or.inr ⟨r, rfl⟩

/-- The blanks that a text opens with. -/
theorem exists_blanks_append (r : List Char) : ∃ n v, r = blanks n ++ v ∧ v.head? ≠ some ' ' := by
  have hblanks : r.takeWhile (· == ' ') = blanks (r.takeWhile (· == ' ')).length :=
    List.eq_replicate_iff.mpr
      ⟨rfl, fun c hc => eq_of_beq (List.mem_takeWhile_imp (p := (· == ' ')) hc)⟩
  refine ⟨_, r.dropWhile (· == ' '), by rw [← hblanks, List.takeWhile_append_dropWhile], ?_⟩
  intro hspace
  have hnot := List.head?_dropWhile_not (· == ' ') r
  rw [hspace] at hnot
  cases hnot

/-- Where text can go on, no blank is followed by the sign of a comment. -/
theorem head?_ne_of_flows {u v : List Char} {n : Nat} (h : flows (u ++ (blanks (n + 1) ++ v)) = true) :
    v.head? ≠ some '#' := by
  intro hhash
  cases v with
  | nil => cases hhash
  | cons c v =>
    obtain rfl : c = '#' := by simpa using hhash
    rw [blanks, List.replicate_succ', List.append_assoc, ← List.append_assoc] at h
    have hbad := flows_append h
    cases hbad

theorem words_of_flows {u : List Char} (hne : u ≠ []) (hinline : ∀ c ∈ u, isInline c = true)
    (hflows : flows u = true) (hhead : u.head? ≠ some ' ') (hlast : u.getLast? ≠ some ' ') :
    Words u := by
  obtain ⟨w, r, rfl, hsolid, hr⟩ := exists_word_append u
  have hword : Word w := by
    refine ⟨?_, fun c hc => hinline c (List.mem_append_left r hc), hsolid, getLast?_ne_colon hflows hr⟩
    rintro rfl
    rcases hr with rfl | ⟨r, rfl⟩
    · exact hne rfl
    · exact hhead rfl
  rcases hr with rfl | ⟨r, rfl⟩
  · rw [List.append_nil]
    exact .one hword
  · obtain ⟨n, v, rfl, hvhead⟩ := exists_blanks_append r
    have hblanks : ' ' :: (blanks n ++ v) = blanks (n + 1) ++ v := rfl
    rw [hblanks] at hinline hflows hlast ⊢
    have hvne : v ≠ [] := by
      rintro rfl
      refine hlast ?_
      rw [List.append_nil, List.getLast?_append, blanks, List.replicate_succ', List.getLast?_concat]
      rfl
    have hvlast : v.getLast? ≠ some ' ' := by
      rwa [List.getLast?_append, List.getLast?_append, List.getLast?_eq_some_getLast hvne,
        Option.some_or, Option.some_or, ← List.getLast?_eq_some_getLast hvne] at hlast
    have hvflows : flows v = true := flows_append (flows_append hflows)
    refine .more hword ?_ (head?_ne_of_flows hflows)
    exact words_of_flows hvne
      (fun c hc => hinline c (List.mem_append_right w (List.mem_append_right _ hc))) hvflows hvhead hvlast
termination_by u.length
decreasing_by
  subst_vars
  simp only [List.length_append, List.length_cons, length_blanks]
  omega

theorem isText_iff {t : List Char} :
    isText t = true ↔ (∀ c ∈ t, isInline c = true) ∧
      Scanner.opensPlain false (t.headD nul) (t.getD 1 nul) = true ∧ flows t = true ∧
      t.head?.any (!Text.isBlank ·) = true ∧ t.getLast?.any (!Text.isBlank ·) = true ∧
      (Scalar.ofPlain? t).isSome = true := by
  simp only [isText, Bool.and_eq_true, List.all_eq_true, and_assoc]

theorem ne_nil_of_isText {t : List Char} (h : isText t = true) : t ≠ [] := by
  rintro rfl
  cases h

theorem words_of_isText {t : List Char} (h : isText t = true) : Words t := by
  obtain ⟨hinline, -, hflows, hhead, hlast, -⟩ := isText_iff.mp h
  refine words_of_flows (ne_nil_of_isText h) hinline hflows ?_ ?_
  · intro hspace
    rw [hspace] at hhead
    cases hhead
  · intro hspace
    rw [hspace] at hlast
    cases hlast

/-- A text does not begin as a comment does. -/
theorem head?_ne_of_isText {t : List Char} (h : isText t = true) : t.head? ≠ some '#' := by
  obtain ⟨-, hopens, -⟩ := isText_iff.mp h
  intro hhash
  rw [List.headD_eq_head?_getD, hhash] at hopens
  have hno : ∀ next, Scanner.opensPlain false '#' next = false := by
    intro next
    simp [Scanner.opensPlain, Scanner.isIndicator, isWideGap, isGap, isBreakOrEnd, isBreak, nul]
  rw [Option.getD_some, hno] at hopens
  cases hopens

/-- Reading takes all of a text and the gap behind it. -/
theorem readPlain_words {t : List Char} (h : isText t = true) {parent : Int} {m : Mark} {ns : List Nat}
    {d : Nat} {cs : List Char} (hcolumn : parent < m.column) (hends : Ends (parent + 1) ns d cs) :
    readPlain false parent ⟨t ++ (emptyLines ns ++ (blanks d ++ cs)), m⟩ =
      ⟨t, m.right t.length, !ns.isEmpty, ⟨cs, (m.right t.length).past d ns⟩⟩ := by
  rw [readPlain, plainLoop_words (words_of_isText h) (head?_ne_of_isText h) (by omega) hends
    (by simp only [List.length_append]; omega) _ rfl]
  simp

theorem isKey_iff {k : List Char} :
    isKey k = true ↔ (∀ c ∈ k, isInline c = true ∧ Text.isBlank c = false ∧ c ≠ ':') ∧
      k.length ≤ 1024 ∧ k.head?.any (fun c => !Scanner.isIndicator c && c != '.') = true ∧
      Scalar.tagOf k = Tag.str := by
  simp only [isKey, Bool.and_eq_true, List.all_eq_true, decide_eq_true_iff, Bool.not_eq_true',
    bne_iff_ne, and_assoc]

theorem exists_cons_of_isKey {k : List Char} (h : isKey k = true) :
    ∃ c r, k = c :: r ∧ Scanner.isIndicator c = false ∧ c ≠ '.' := by
  obtain ⟨-, -, hhead, -⟩ := isKey_iff.mp h
  cases k with
  | nil => cases hhead
  | cons c r =>
    have hc : (!Scanner.isIndicator c && c != '.') = true := hhead
    rw [Bool.and_eq_true, Bool.not_eq_true', bne_iff_ne] at hc
    exact ⟨c, r, rfl, hc⟩

/-- Reading a key stops at its colon. -/
theorem readPlain_key {k r : List Char} (h : isKey k = true) (hr : isWideGap (r.headD nul) = true)
    (parent : Int) (m : Mark) :
    readPlain false parent ⟨k ++ ':' :: r, m⟩ =
      ⟨k, m.right k.length, false, ⟨':' :: r, m.right k.length⟩⟩ := by
  obtain ⟨hchars, -, -, -⟩ := isKey_iff.mp h
  obtain ⟨c, k', hk, hindicator, -⟩ := exists_cons_of_isKey h
  have hinline : ∀ c ∈ k, isInline c = true := fun c hc => (hchars c hc).1
  have hrun : plainRun false (k ++ ':' :: r) = k := by
    refine plainRun_append hinline ?_ ?_ ?_
    · rintro c hc rfl
      have hblank := (hchars _ hc).2.1
      cases hblank
    · rintro u rfl
      exact absurd rfl (hchars ':' (by simp)).2.2
    · rintro d r' ⟨⟩
      simp only [plainStops, hr]
      rfl
  have hcomment : (c == '#') = false := by
    rw [beq_eq_false_iff_ne]
    rintro rfl
    cases hindicator
  have hpeek : Cursor.peek ⟨k ++ ':' :: r, m⟩ = c := by rw [hk]; rfl
  have hgap : plainGap ⟨':' :: r, m.right k.length⟩ = ⟨[], false, ⟨':' :: r, m.right k.length⟩⟩ := rfl
  have hne : k.isEmpty = false := by rw [hk]; rfl
  rw [readPlain, plainLoop]
  simp only [hpeek, hcomment, hrun, hne, Cursor.skip_append hinline, hgap, List.isEmpty_nil,
    Bool.true_or, if_true, Bool.false_eq_true, if_false, List.nil_append]

end Token
end Yaml
end TalkDeck
