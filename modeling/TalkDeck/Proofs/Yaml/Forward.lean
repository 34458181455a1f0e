import TalkDeck.Proofs.Yaml.Outcome
import TalkDeck.Yaml.Token.Scan

/-
Scanning only moves forward: the tokens of a text and the fault that ends them have their marks in it,
and one thing alone stops the scanner for good, an escaped code point beyond 31 bits
(`Token.gives_scan`).

Every reader is given a cursor within the text as a whole (`Within`), and leaves such a cursor.
-/

namespace TalkDeck
namespace Yaml

namespace Token

variable {t : List Char} {c : Cursor} {R : Prop}

/-! ## Names, tags and directives -/

theorem gives_readName (h : Within t c) (follows : Char → Bool) :
    Gives (From t R) (fun r => Within t r.2) (readName follows c) := by
  unfold readName
  simp only
  split
  · exact .of_fail h.mark
  · split
    · exact .of_ok (h.span _)
    · exact .of_fail (h.span _).mark

theorem gives_readEscapes (h : Within t c) (fuel : Nat) (octets : List UInt8) :
    Gives (From t R) (fun r => Within t r.2) (readEscapes fuel c octets) := by
  induction fuel generalizing c octets with
  | zero => exact .of_ok h
  | succ fuel ih =>
    unfold readEscapes
    split
    · simp only
      split
      · exact .of_fail h.next.mark
      · exact .of_fail h.next.mark
      · exact ih (h.next.skip 2) _
    · exact .of_ok h

theorem gives_uriLoop (h : Within t c) (fuel : Nat) (text : List Char) :
    Gives (From t R) (fun r => Within t r.2) (uriLoop fuel c text) := by
  induction fuel generalizing c text with
  | zero => exact .of_ok h
  | succ fuel ih =>
    unfold uriLoop
    simp only
    split
    · refine .bind (gives_readEscapes (h.span _) _ _) ?_
      rintro ⟨octets, e⟩ he
      simp only
      split
      · exact ih he _
      · exact .of_fail (h.span _).mark
    · exact .of_ok (h.span _)

theorem gives_readUri (h : Within t c) : Gives (From t R) (fun r => Within t r.2) (readUri c) := by
  unfold readUri
  split
  · exact .bind (gives_uriLoop h _ _) fun r hr => .of_pure hr
  · exact .of_fail h.mark

theorem gives_readHandle (h : Within t c) : Gives (From t R) (fun r => Within t r.2) (readHandle c) := by
  unfold readHandle
  split
  · exact .of_fail h.mark
  · split
    · exact .of_ok h.next
    · simp only
      split
      · exact .of_ok (h.next.span _).next
      · exact .of_fail (h.next.span _).mark

theorem gives_readTag (h : Within t c) : Gives (From t R) (fun r => Within t r.2) (readTag c) := by
  unfold readTag
  refine .bind (P := fun r => Within t r.2) ?_ ?_
  · show Gives (From t R) _ (ite _ _ _)
    split
    · refine .bind (gives_readUri (h.skip 2)) ?_
      rintro ⟨suffix, d⟩ hd
      simp only
      split
      · exact .of_pure hd.next
      · exact .of_fail hd.mark
    · split
      · exact .of_pure h.next
      · split
        · refine .bind (gives_readHandle h) ?_
          rintro ⟨handle, d⟩ hd
          exact .bind (gives_readUri hd) fun r hr => .of_pure hr
        · exact .bind (gives_readUri h.next) fun r hr => .of_pure hr
  · rintro ⟨tag, d⟩ hd
    simp only
    split
    · exact .of_pure hd
    · exact .of_fail hd.mark

theorem gives_readLineEnd (h : Within t c) : Gives (From t R) (Within t) (readLineEnd c) := by
  unfold readLineEnd
  simp only
  split
  · exact .of_ok h.dropSpaces.dropComment.lineBreak
  · exact .of_fail h.dropSpaces.dropComment.mark

theorem gives_readNumber (h : Within t c) : Gives (From t R) (fun r => Within t r.2) (readNumber c) := by
  unfold readNumber
  simp only
  split
  · exact .of_fail h.mark
  · split
    · exact .of_error trivial
    · exact .of_ok (h.span _)

theorem gives_readVersion (h : Within t c) : Gives (From t R) (fun r => Within t r.2) (readVersion c) := by
  unfold readVersion
  refine .bind (gives_readNumber h.dropSpaces) ?_
  rintro ⟨major, d⟩ hd
  simp only
  split
  · exact .of_fail hd.mark
  · refine .bind (gives_readNumber hd.next) ?_
    rintro ⟨minor, e⟩ he
    simp only
    split
    · exact .of_pure he
    · exact .of_fail he.mark

theorem gives_readTagDirective (h : Within t c) :
    Gives (From t R) (fun r => Within t r.2) (readTagDirective c) := by
  unfold readTagDirective
  refine .bind (gives_readHandle h.dropSpaces) ?_
  rintro ⟨handle, d⟩ hd
  simp only
  split
  · exact .of_fail hd.mark
  · refine .bind (gives_readUri hd.dropSpaces) ?_
    rintro ⟨lead, e⟩ he
    simp only
    split
    · exact .of_pure he
    · exact .of_fail he.mark

theorem gives_readDirective (h : Within t c) :
    Gives (From t R) (fun r => Marks t r.2.1 ∧ Within t r.2.2) (readDirective c) := by
  unfold readDirective
  refine .bind (gives_readName h.next _) ?_
  rintro ⟨name, d⟩ hd
  have hend : ∀ r : Directive × Cursor, Within t r.2 →
      Gives (From t R) (fun r => Marks t r.2.1 ∧ Within t r.2.2) (do
        let g ← readLineEnd
          (if name = "YAML" || name = "TAG" then r.2 else r.2.dropWhile (!isBreakOrEnd ·))
        pure (r.1, r.2.mark, g)) := by
    intro r hr
    refine .bind (gives_readLineEnd ?_) fun g hg => .of_pure ⟨hr.mark, hg⟩
    split
    · exact hr
    · exact hr.dropWhile _
  simp only
  split
  · refine .bind (gives_readVersion hd) ?_
    intro r hr
    exact hend r hr
  · split
    · refine .bind (gives_readTagDirective hd) ?_
      intro r hr
      exact hend r hr
    · refine .bind (.of_pure (P := fun r : Directive × Cursor => Within t r.2) hd) ?_
      intro r hr
      exact hend r hr

/-! ## Block scalars -/

theorem gives_readIncrement (h : Within t c) :
    Gives (From t R) (fun r => Within t r.2) (readIncrement c) := by
  unfold readIncrement
  split
  · exact .of_fail h.mark
  · split
    · exact .of_ok h.next
    · exact .of_ok h

theorem gives_readIndicators (h : Within t c) :
    Gives (From t R) (fun r => Within t r.2) (readIndicators c) := by
  unfold readIndicators
  split
  · exact .bind (gives_readIncrement h.next) fun r hr => .of_pure hr
  · refine .bind (gives_readIncrement h) ?_
    rintro ⟨increment, d⟩ hd
    simp only
    split
    · exact .of_pure hd.next
    · exact .of_pure hd

theorem gives_readBlockHeader (h : Within t c) :
    Gives (From t R) (fun r => Within t r.2) (readBlockHeader c) := by
  unfold readBlockHeader
  refine .bind (gives_readIndicators h) ?_
  rintro ⟨header, d⟩ hd
  simp only
  split
  · exact .of_pure hd
  · exact .of_fail hd.mark

theorem within_blockIndentation (h : Within t c) (fuel : Nat) (breaks : List Char) (widest : Nat)
    {stop : Mark} (hstop : Marks t stop) :
    Marks t (blockIndentation fuel c breaks widest stop).2.2.1 ∧
      Within t (blockIndentation fuel c breaks widest stop).2.2.2 := by
  induction fuel generalizing c breaks widest stop with
  | zero => exact ⟨hstop, h⟩
  | succ fuel ih =>
    unfold blockIndentation
    split
    · exact ih h.next _ _ hstop
    · split
      · exact ih h.lineBreak _ _ h.lineBreak.mark
      · exact ⟨hstop, h⟩

theorem within_dropIndent (h : Within t c) (indent : Int) (fuel : Nat) :
    Within t (dropIndent indent fuel c) := by
  induction fuel generalizing c with
  | zero => exact h
  | succ fuel ih =>
    unfold dropIndent
    split
    · exact ih h.next
    · exact h

theorem within_blockBreaks (h : Within t c) (indent : Int) (fuel : Nat) (breaks : List Char)
    {stop : Mark} (hstop : Marks t stop) :
    Marks t (blockBreaks indent fuel c breaks stop).2.1 ∧
      Within t (blockBreaks indent fuel c breaks stop).2.2 := by
  induction fuel generalizing c breaks stop with
  | zero => exact ⟨hstop, h⟩
  | succ fuel ih =>
    have hd := within_dropIndent h indent c.rest.length
    unfold blockBreaks
    simp only
    split
    · exact ih hd.lineBreak _ hd.lineBreak.mark
    · exact ⟨hstop, hd⟩

theorem within_blockLines (h : Within t c) (folded : Bool) (indent : Int) (fuel : Nat)
    (text lineEnd breaks : List Char) {stop : Mark} (hstop : Marks t stop) :
    Marks t (blockLines folded indent fuel c text lineEnd breaks stop).2.2.2.1 ∧
      Within t (blockLines folded indent fuel c text lineEnd breaks stop).2.2.2.2 := by
  induction fuel generalizing c text lineEnd breaks stop with
  | zero => exact ⟨hstop, h⟩
  | succ fuel ih =>
    unfold blockLines
    -- The line, its break and the breaks after it: each is named before the next is looked at.
    have hd := h.span (!isBreakOrEnd ·)
    generalize c.span (!isBreakOrEnd ·) = r at hd ⊢
    obtain ⟨line, d⟩ := r
    have he := hd.lineBreak
    generalize hbreak : d.lineBreak = r at he ⊢
    obtain ⟨lineEnd', e⟩ := r
    have hf := within_blockBreaks he indent (e.rest.length + 1) [] he.mark
    simp only [hbreak]
    generalize blockBreaks indent _ _ _ _ = r at hf ⊢
    split
    · split
      · exact ih hf.2 _ _ _ hf.1
      · exact hf
    · exact ⟨hstop, h⟩

theorem gives_readBlock (h : Within t c) (folded : Bool) (parent : Int) :
    Gives (From t R) (fun r => Marks t r.2.1 ∧ Within t r.2.2) (readBlock folded parent c) := by
  unfold readBlock
  refine .bind (gives_readBlockHeader h.next) ?_
  rintro ⟨header, d⟩ hd
  simp only
  refine .bind (gives_readLineEnd hd) ?_
  intro e he
  have hbreaks : ∀ r : Int × List Char × Mark × Cursor, Marks t r.2.2.1 ∧ Within t r.2.2.2 →
      Marks t (blockLines folded r.1 (r.2.2.2.rest.length + 1) r.2.2.2 [] [] r.2.1 r.2.2.1).2.2.2.1 ∧
      Within t (blockLines folded r.1 (r.2.2.2.rest.length + 1) r.2.2.2 [] [] r.2.1
        r.2.2.1).2.2.2.2 :=
    fun r hr => within_blockLines hr.2 _ _ _ _ _ _ hr.1
  refine .of_pure (hbreaks _ ?_)
  split
  · exact within_blockIndentation he _ _ _ he.mark
  · exact within_blockBreaks he _ _ _ he.mark

/-! ## Quoted scalars -/

open Text (Percent.hexValue?)

/-- Whether an escape for eight hexadecimal digits stands first, with a digit that takes the number
beyond 31 bits. -/
def opensHugeEscape : List Char → Bool
  | '\\' :: 'U' :: x :: _ => (Percent.hexValue? x).any (8 ≤ ·)
  | _ => false

/-- Whether such an escape stands anywhere in a text. -/
def hasHugeEscape : List Char → Bool
  | [] => false
  | c :: cs => opensHugeEscape (c :: cs) || hasHugeEscape cs

theorem hasHugeEscape_of_suffix {cs : List Char} (hopens : opensHugeEscape cs = true)
    (h : cs <:+ t) : hasHugeEscape t = true := by
  induction t with
  | nil =>
    rw [List.suffix_nil.1 h] at hopens
    exact absurd hopens (by decide)
  | cons c u ih =>
    unfold hasHugeEscape
    rcases List.suffix_cons_iff.1 h with rfl | h
    · rw [hopens, Bool.true_or]
    · rw [ih h, Bool.or_true]

theorem hexValue?_getD_lt (ch : Char) : (Percent.hexValue? ch).getD 0 < 16 := by
  unfold Percent.hexValue?
  split
  · next h =>
    have h9 : ch.toNat ≤ 57 := h.2
    show ch.toNat - 48 < 16
    omega
  · split
    · next h =>
      have hf : ch.toNat ≤ 102 := h.2
      show ch.toNat - 87 < 16
      omega
    · split
      · next h =>
        have hF : ch.toNat ≤ 70 := h.2
        show ch.toNat - 55 < 16
        omega
      · decide

theorem foldl_hex_lt (cs : List Char) (n : Nat) :
    cs.foldl (fun n ch => 16 * n + (Percent.hexValue? ch).getD 0) n < (n + 1) * Nat.pow 16 cs.length := by
  induction cs generalizing n with
  | nil => simp
  | cons c cs ih =>
    have hc := hexValue?_getD_lt c
    have hn : 16 * n + (Percent.hexValue? c).getD 0 + 1 ≤ (n + 1) * 16 := by omega
    rw [List.foldl_cons]
    calc _ < (16 * n + (Percent.hexValue? c).getD 0 + 1) * Nat.pow 16 cs.length := ih _
      _ ≤ (n + 1) * 16 * Nat.pow 16 cs.length := Nat.mul_le_mul_right _ hn
      _ = (n + 1) * (Nat.pow 16 cs.length * 16) := by rw [Nat.mul_assoc, Nat.mul_comm 16]

/-- Hexadecimal digits that make a number beyond 31 bits are eight, and the first is eight or more:
the digits after it add less than it would take to make up for a smaller one. -/
theorem opensHugeEscape_of_le {ch : Char} {width : Nat} (hwidth : hexWidth? ch = some width)
    {cs : List Char}
    (hle : 0x80000000 ≤
      (cs.take width).foldl (fun n ch => 16 * n + (Percent.hexValue? ch).getD 0) 0) :
    opensHugeEscape ('\\' :: ch :: cs) = true := by
  have hlen : (cs.take width).length ≤ width := List.length_take_le _ _
  have hlt := foldl_hex_lt (cs.take width) 0
  have hpow := Nat.pow_le_pow_right (show 0 < 16 by decide) hlen
  rw [Nat.pow_eq] at hlt
  unfold hexWidth? at hwidth
  split at hwidth <;> cases hwidth
  · omega
  · omega
  · cases cs with
    | nil => exact absurd hle (by decide)
    | cons x cs =>
      have htail := foldl_hex_lt (cs.take 7) (16 * 0 + (Percent.hexValue? x).getD 0)
      have hseven : (16 : Nat) ^ (cs.take 7).length ≤ 16 ^ 7 :=
        Nat.pow_le_pow_right (by decide) (List.length_take_le _ _)
      rw [Nat.pow_eq] at htail
      have hfirst : 8 ≤ (Percent.hexValue? x).getD 0 := by
        apply Nat.le_of_not_lt
        intro hsmall
        have := Nat.mul_le_mul (show 16 * 0 + (Percent.hexValue? x).getD 0 + 1 ≤ 8 by omega) hseven
        rw [List.take_succ_cons, List.foldl_cons] at hle
        omega
      show (Percent.hexValue? x).any (8 ≤ ·) = true
      cases hx : Percent.hexValue? x with
      | none => rw [hx] at hfirst; exact absurd hfirst (by decide)
      | some v => rw [hx] at hfirst; exact decide_eq_true hfirst

theorem gives_readHex {ch : Char} {width : Nat} (hwidth : hexWidth? ch = some width)
    (h : Within t c) :
    Gives (From t (opensHugeEscape ('\\' :: ch :: c.rest) = true)) (fun r => Within t r.2)
      (readHex width c) := by
  unfold readHex
  split
  · exact .of_fail h.mark
  · refine .bind (P := fun _ => True) ?_ fun x _ => .of_pure (h.skip width)
    unfold ofCodePoint
    split
    · exact .of_ok trivial
    · split
      · exact .of_error trivial
      · next hlarge => exact .of_error (opensHugeEscape_of_le hwidth (Nat.le_of_not_lt hlarge))

theorem gives_quoteBreaks (h : Within t c) (fuel : Nat) (breaks : List Char) :
    Gives (From t R) (fun r => Within t r.2) (quoteBreaks fuel c breaks) := by
  induction fuel generalizing c breaks with
  | zero => exact .of_ok h
  | succ fuel ih =>
    unfold quoteBreaks
    split
    · exact .of_fail h.mark
    · simp only
      split
      · exact ih (h.dropWhile _).lineBreak _
      · exact .of_ok (h.dropWhile _)

theorem gives_quoteSpaces (h : Within t c) :
    Gives (From t R) (fun r => Within t r.2) (quoteSpaces c) := by
  unfold quoteSpaces
  simp only
  split
  · exact .of_fail (h.span _).mark
  · split
    · exact .bind (gives_quoteBreaks (h.span _).lineBreak _ _) fun r hr => .of_pure hr
    · exact .of_ok (h.span _)

theorem gives_quoteText (h : Within t c) (double : Bool) (fuel : Nat) (text : List Char) :
    Gives (From t (hasHugeEscape t = true)) (fun r => Within t r.2) (quoteText double fuel c text) := by
  induction fuel generalizing c text with
  | zero => exact .of_ok h
  | succ fuel ih =>
    have hd : Within t (c.span isQuoteText).2 := h.span _
    unfold quoteText
    simp only
    split
    · exact ih (hd.skip 2) _
    · split
      · exact ih hd.next _
      · split
        · next hslash =>
          split
          · exact ih hd.next.next _
          · split
            · next width hwidth =>
              have hsecond : (c.span isQuoteText).2.next.peek ≠ nul := by
                intro hnul
                rw [hnul] at hwidth
                exact nomatch (show none = some width from hwidth)
              have hfirst : (c.span isQuoteText).2.peek = '\\' := by
                simp only [Bool.and_eq_true, beq_iff_eq] at hslash
                exact hslash.2
              refine .bind ((gives_readHex hwidth hd.next.next).weaken fun hopens =>
                hasHugeEscape_of_suffix hopens ?_) ?_
              · rw [← Cursor.rest_eq_cons hsecond, ← hfirst, ← Cursor.rest_eq_cons]
                · exact hd.suffix
                · rw [hfirst]
                  decide
              · rintro ⟨x, f⟩ hf
                exact ih hf _
            · split
              · refine .bind (gives_quoteBreaks hd.next.lineBreak _ _) ?_
                rintro ⟨breaks, g⟩ hg
                exact ih hg _
              · exact .of_fail hd.next.mark
        · exact .of_ok hd

theorem gives_quoteLoop (h : Within t c) (double : Bool) (fuel : Nat) (text : List Char) :
    Gives (From t (hasHugeEscape t = true)) (fun r => Within t r.2) (quoteLoop double fuel c text) := by
  induction fuel generalizing c text with
  | zero => exact .of_ok h
  | succ fuel ih =>
    unfold quoteLoop
    refine .bind (gives_quoteText h double _ _) ?_
    rintro ⟨text, d⟩ hd
    have hspaces : Gives (From t (hasHugeEscape t = true)) (fun r => Within t r.2) (do
        let r ← quoteSpaces d
        quoteLoop double fuel r.2 (text ++ r.1)) :=
      .bind (gives_quoteSpaces hd) fun r hr => ih hr _
    cases double with
    | false =>
      simp only [Bool.false_eq_true, if_false]
      split
      · exact .of_pure hd.next
      · exact hspaces
    | true =>
      simp only [if_true]
      split
      · exact .of_pure hd.next
      · exact hspaces

theorem gives_readQuoted (h : Within t c) (double : Bool) :
    Gives (From t (hasHugeEscape t = true)) (fun r => Within t r.2) (readQuoted double c) :=
  gives_quoteLoop h.next double _ _

/-! ## Plain scalars -/

theorem within_plainBreaks (h : Within t c) (fuel : Nat) (breaks : List Char) :
    Within t (plainBreaks fuel c breaks).2.2 := by
  induction fuel generalizing c breaks with
  | zero => exact h
  | succ fuel ih =>
    unfold plainBreaks
    split
    · exact ih h.next _
    · split
      · simp only
        split
        · exact h.lineBreak
        · exact ih h.lineBreak _
      · exact h

theorem within_plainGap (h : Within t c) : Within t (plainGap c).cursor := by
  have hd : Within t (c.span (· == ' ')).2 := h.span _
  unfold plainGap
  simp only
  split
  · split
    · exact hd.lineBreak
    · split
      · exact within_plainBreaks hd.lineBreak _ _
      · exact within_plainBreaks hd.lineBreak _ _
  · exact hd

theorem within_plainLoop {s : PlainScalar} (hstop : Marks t s.stop) (h : Within t s.cursor)
    (inFlow : Bool) (indent : Int) (fuel : Nat) (gap : List Char) :
    Marks t (plainLoop inFlow indent fuel s gap).stop ∧
      Within t (plainLoop inFlow indent fuel s gap).cursor := by
  induction fuel generalizing s gap with
  | zero => exact ⟨hstop, h⟩
  | succ fuel ih =>
    unfold plainLoop
    simp only
    split
    · exact ⟨hstop, h⟩
    · split
      · exact ⟨hstop, h⟩
      · split
        · exact ⟨(h.skip _).mark, within_plainGap (h.skip _)⟩
        · exact ih (h.skip _).mark (within_plainGap (h.skip _)) _

theorem within_readPlain (h : Within t c) (inFlow : Bool) (parent : Int) :
    Marks t (readPlain inFlow parent c).stop ∧ Within t (readPlain inFlow parent c).cursor :=
  within_plainLoop h.mark h inFlow _ _ _

end Token

/-! ## The scanner -/

namespace Scanner

open Token (hasHugeEscape)

variable {t : List Char} {s : Scanner} {R : Prop}

/-- The scanner stands in the text, and so does what waits there. -/
structure Placed (t : List Char) (s : Scanner) : Prop where
  cursor : Within t s.cursor
  queue : ∀ k ∈ s.queue, k.Placed t
  pending : ∀ k ∈ s.pending, Marks t k.2.mark

namespace Placed

theorem push (h : s.Placed t) {k : Token} (hk : k.Placed t) : (s.push k).Placed t := by
  refine ⟨h.cursor, fun k' hk' => ?_, h.pending⟩
  rcases List.mem_append.mp hk' with hk' | hk'
  · exact h.queue k' hk'
  · rw [List.mem_singleton.mp hk']
    exact hk

theorem pushHere (h : s.Placed t) (k : Token.Kind) : (s.pushHere k).Placed t :=
  h.push ⟨h.cursor.mark, h.cursor.mark⟩

theorem pushSign (h : s.Placed t) (k : Token.Kind) (n : Nat) : (s.pushSign k n).Placed t :=
  have hpush := h.push (k := ⟨k, s.cursor.mark, (s.cursor.skip n).mark⟩)
    ⟨h.cursor.mark, (h.cursor.skip n).mark⟩
  ⟨h.cursor.skip n, hpush.queue, hpush.pending⟩

theorem sign (h : s.Placed t) (k : Token.Kind) (n : Nat) {flow : Int} {keyAllowed : Bool} :
    Placed t { s.pushSign k n with flow, keyAllowed } :=
  have hsign := h.pushSign k n
  ⟨hsign.cursor, hsign.queue, hsign.pending⟩

theorem token (h : s.Placed t) {k : Token.Kind} {stop : Mark} {c : Cursor} {keyAllowed : Bool}
    (hr : Marks t stop ∧ Within t c) :
    Placed t { s.push ⟨k, s.cursor.mark, stop⟩ with cursor := c, keyAllowed } :=
  have hpush := h.push (k := ⟨k, s.cursor.mark, stop⟩) ⟨h.cursor.mark, hr.1⟩
  ⟨hr.2, hpush.queue, hpush.pending⟩

theorem filter (h : s.Placed t) (p : Int × PendingKey → Bool) :
    Placed t { s with pending := s.pending.filter p } :=
  ⟨h.cursor, h.queue, fun k hk => h.pending k (List.mem_filter.mp hk).1⟩

theorem unwindLoop (h : s.Placed t) (column : Int) (fuel : Nat) :
    (unwindLoop column fuel s).Placed t := by
  induction fuel generalizing s with
  | zero => exact h
  | succ fuel ih =>
    have hpush := h.pushHere .blockEnd
    unfold Scanner.unwindLoop
    split
    · exact ih ⟨hpush.cursor, hpush.queue, hpush.pending⟩
    · exact h

theorem unwind (h : s.Placed t) (column : Int) : (s.unwind column).Placed t := by
  unfold Scanner.unwind
  split
  · exact h
  · exact h.unwindLoop column _

theorem widen (h : s.Placed t) (column : Int) : (s.widen column).2.Placed t := by
  unfold Scanner.widen
  split
  · exact ⟨h.cursor, h.queue, h.pending⟩
  · exact h

theorem openBlock (h : s.Placed t) (k : Token.Kind) : (s.openBlock k).Placed t := by
  have hw := h.widen s.cursor.column
  unfold Scanner.openBlock
  simp only
  split
  · exact hw.pushHere k
  · exact hw

theorem openBlock_outside (h : s.Placed t) (k : Token.Kind) :
    (if s.inFlow then s else s.openBlock k).Placed t := by
  split
  · exact h
  · exact h.openBlock k

theorem skipLoop (h : s.Placed t) (fuel : Nat) : (skipLoop fuel s).Placed t := by
  induction fuel generalizing s with
  | zero => exact h
  | succ fuel ih =>
    have hd : Within t s.cursor.dropSpaces.dropComment.lineBreak.2 :=
      h.cursor.dropSpaces.dropComment.lineBreak
    unfold Scanner.skipLoop
    simp only
    split
    · exact ⟨hd, h.queue, h.pending⟩
    · exact ih ⟨hd, h.queue, h.pending⟩

theorem skipToToken (h : s.Placed t) : s.skipToToken.Placed t := by
  have hfirst : Within t (if s.cursor.mark.index = 0 ∧ s.cursor.peek.toNat = 0xFEFF then s.cursor.next
      else s.cursor) := by
    split
    · exact h.cursor.next
    · exact h.cursor
  exact skipLoop (s := { s with cursor := _ }) ⟨hfirst, h.queue, h.pending⟩ _

end Placed

theorem placed_start (t : List Char) : (start t).Placed t := by
  refine ⟨Within.start t, fun k hk => ?_, nofun⟩
  rw [List.mem_singleton.mp hk]
  exact ⟨Marks.start t, Marks.start t⟩

theorem gives_dropStale (h : s.Placed t) : Gives (From t R) (Placed t) s.dropStale := by
  unfold dropStale
  split
  · exact .of_fail h.cursor.mark
  · exact .of_ok (h.filter _)

theorem gives_dropPending (h : s.Placed t) : Gives (From t R) (Placed t) s.dropPending := by
  unfold dropPending
  split
  · exact .of_ok h
  · split
    · exact .of_fail h.cursor.mark
    · exact .of_ok (h.filter _)

theorem gives_notePending (h : s.Placed t) : Gives (From t R) (Placed t) s.notePending := by
  unfold notePending
  split
  · refine .bind (gives_dropPending h) fun s' hs' => .of_pure ⟨hs'.cursor, hs'.queue, fun k hk => ?_⟩
    rcases List.mem_append.mp hk with hk | hk
    · exact hs'.pending k hk
    · rw [List.mem_singleton.mp hk]
      exact h.cursor.mark
  · exact .of_ok h

theorem gives_scanEnd (h : s.Placed t) : Gives (From t R) (Placed t) s.scanEnd := by
  refine .bind (gives_dropPending (h.unwind _)) fun s' hs' => .of_pure ?_
  have hpush := hs'.pushHere .streamEnd
  exact ⟨hpush.cursor, hpush.queue, nofun⟩

theorem gives_scanDirective (h : s.Placed t) : Gives (From t R) (Placed t) s.scanDirective :=
  .bind (gives_dropPending (h.unwind _)) fun _ hs' =>
    .bind (Token.gives_readDirective hs'.cursor) fun _ hr => .of_pure (hs'.token hr)

theorem gives_scanSeparator (h : s.Placed t) (k : Token.Kind) :
    Gives (From t R) (Placed t) (s.scanSeparator k) :=
  .bind (gives_dropPending (h.unwind _)) fun _ hs' => .of_pure (hs'.sign k 3)

theorem gives_scanFlowStart (h : s.Placed t) (k : Token.Kind) :
    Gives (From t R) (Placed t) (s.scanFlowStart k) :=
  .bind (gives_notePending h) fun _ hs' => .of_pure (hs'.sign k 1)

theorem gives_scanFlowEnd (h : s.Placed t) (k : Token.Kind) :
    Gives (From t R) (Placed t) (s.scanFlowEnd k) :=
  .bind (gives_dropPending h) fun _ hs' => .of_pure (hs'.sign k 1)

theorem gives_scanFlowEntry (h : s.Placed t) : Gives (From t R) (Placed t) s.scanFlowEntry :=
  .bind (gives_dropPending h) fun _ hs' => .of_pure (hs'.sign _ 1)

theorem gives_scanBlockEntry (h : s.Placed t) : Gives (From t R) (Placed t) s.scanBlockEntry := by
  unfold scanBlockEntry
  split
  · exact .of_fail h.cursor.mark
  · exact .bind (gives_dropPending (h.openBlock_outside _)) fun _ hs' => .of_pure (hs'.sign _ 1)

theorem gives_scanKey (h : s.Placed t) : Gives (From t R) (Placed t) s.scanKey := by
  unfold scanKey
  split
  · exact .of_fail h.cursor.mark
  · exact .bind (gives_dropPending (h.openBlock_outside _)) fun _ hs' => .of_pure (hs'.sign _ 1)

/-- A colon puts the key, and perhaps its mapping, where the pending key was. -/
theorem gives_scanValue (h : s.Placed t) : Gives (From t R) (Placed t) s.scanValue := by
  unfold scanValue
  split
  · next k hk =>
    have hmark : Marks t k.mark := by
      obtain ⟨before, after, hsplit, -⟩ := List.lookup_eq_some_iff.mp hk
      refine h.pending (s.flow, k) ?_
      rw [hsplit]
      exact List.mem_append_right _ List.mem_cons_self
    have hw : (if s.inFlow then (false, s) else s.widen k.mark.column).2.Placed t := by
      split
      · exact h
      · exact h.widen _
    refine .of_ok (Placed.pushSign ?_ .value 1)
    refine ⟨hw.cursor, fun q hq => ?_, (h.filter _).pending⟩
    rcases List.mem_append.mp hq with hq | hq
    · rcases List.mem_append.mp hq with hq | hq
      · exact h.queue q (List.mem_of_mem_take hq)
      · rcases List.mem_append.mp hq with hq | hq
        · split at hq
          · rw [List.mem_singleton.mp hq]
            exact ⟨hmark, hmark⟩
          · exact absurd hq List.not_mem_nil
        · rw [List.mem_singleton.mp hq]
          exact ⟨hmark, hmark⟩
    · exact h.queue q (List.mem_of_mem_drop hq)
  · split
    · exact .of_fail h.cursor.mark
    · have ho := h.openBlock_outside .blockMappingStart
      exact .bind (gives_dropPending ⟨ho.cursor, ho.queue, ho.pending⟩) fun _ hs' =>
        .of_pure (hs'.pushSign _ 1)

theorem gives_scanNamed (h : s.Placed t) (k : String → Token.Kind) :
    Gives (From t R) (Placed t) (s.scanNamed k) :=
  .bind (gives_notePending h) fun _ hs' =>
    .bind (Token.gives_readName hs'.cursor.next _) fun _ hr => .of_pure (hs'.token ⟨hr.mark, hr⟩)

theorem gives_scanTag (h : s.Placed t) : Gives (From t R) (Placed t) s.scanTag :=
  .bind (gives_notePending h) fun _ hs' =>
    .bind (Token.gives_readTag hs'.cursor) fun _ hr => .of_pure (hs'.token ⟨hr.mark, hr⟩)

theorem gives_scanBlock (h : s.Placed t) (folded : Bool) :
    Gives (From t R) (Placed t) (s.scanBlock folded) :=
  .bind (gives_dropPending h) fun _ hs' =>
    .bind (Token.gives_readBlock hs'.cursor _ _) fun _ hr => .of_pure (hs'.token hr)

theorem gives_scanQuoted (h : s.Placed t) (double : Bool) :
    Gives (From t (hasHugeEscape t = true)) (Placed t) (s.scanQuoted double) :=
  .bind (gives_notePending h) fun _ hs' =>
    .bind (Token.gives_readQuoted hs'.cursor _) fun _ hr => .of_pure (hs'.token ⟨hr.mark, hr⟩)

theorem gives_scanPlain (h : s.Placed t) : Gives (From t R) (Placed t) s.scanPlain :=
  .bind (gives_notePending h) fun _ hs' =>
    .of_pure (hs'.token (Token.within_readPlain hs'.cursor _ _))

/-- Whatever the next token is, the scanner stays within the text, and only an escape beyond 31 bits
stops it for good. -/
theorem gives_scanToken (h : s.Placed t) :
    Gives (From t (hasHugeEscape t = true)) (Placed t) s.scanToken := by
  unfold scanToken
  refine .ite (fun _ => gives_scanEnd h) fun _ => ?_
  refine .ite (fun _ => gives_scanDirective h) fun _ => ?_
  refine .ite (fun _ => gives_scanSeparator h _) fun _ => ?_
  refine .ite (fun _ => gives_scanSeparator h _) fun _ => ?_
  refine .ite (fun _ => gives_scanFlowStart h _) fun _ => ?_
  refine .ite (fun _ => gives_scanFlowStart h _) fun _ => ?_
  refine .ite (fun _ => gives_scanFlowEnd h _) fun _ => ?_
  refine .ite (fun _ => gives_scanFlowEnd h _) fun _ => ?_
  refine .ite (fun _ => gives_scanFlowEntry h) fun _ => ?_
  refine .ite (fun _ => gives_scanBlockEntry h) fun _ => ?_
  refine .ite (fun _ => gives_scanKey h) fun _ => ?_
  refine .ite (fun _ => gives_scanValue h) fun _ => ?_
  refine .ite (fun _ => gives_scanNamed h _) fun _ => ?_
  refine .ite (fun _ => gives_scanNamed h _) fun _ => ?_
  refine .ite (fun _ => gives_scanTag h) fun _ => ?_
  refine .ite (fun _ => gives_scanBlock h _) fun _ => ?_
  refine .ite (fun _ => gives_scanBlock h _) fun _ => ?_
  refine .ite (fun _ => gives_scanQuoted h _) fun _ => ?_
  refine .ite (fun _ => gives_scanQuoted h _) fun _ => ?_
  refine .ite (fun _ => gives_scanPlain h) fun _ => ?_
  exact .of_fail h.cursor.mark

theorem gives_fetch (h : s.Placed t) :
    Gives (From t (hasHugeEscape t = true)) (Placed t) s.fetch :=
  .bind (gives_dropStale h.skipToToken) fun _ hs => gives_scanToken (hs.unwind _)

theorem gives_mustFetch (h : s.Placed t) :
    Gives (From t R) (fun r => r.2.Placed t) s.mustFetch := by
  unfold mustFetch
  split
  · exact .of_ok h
  · split
    · exact .of_ok h
    · exact .bind (gives_dropStale h) fun s' hs' => .of_pure hs'

theorem gives_run (h : s.Placed t) (fuel : Nat) {done : List Token} (hdone : ∀ k ∈ done, k.Placed t) :
    (run fuel s done).Gives (From t (hasHugeEscape t = true)) (Token.Placed t) := by
  induction fuel generalizing s done with
  | zero => exact .of_none hdone
  | succ fuel ih =>
    have hmust : Gives (From t (hasHugeEscape t = true)) _ s.mustFetch := gives_mustFetch h
    rw [run_succ]
    split
    · next f hf => exact .of_error hdone hmust hf
    · next s' hs' =>
      have hfetch := gives_fetch (hmust.of_eq_ok hs')
      split
      · next f hf => exact .of_error hdone hfetch hf
      · next s'' hs'' => exact ih (hfetch.of_eq_ok hs'') hdone
    · next s' hs' =>
      have hs' : s'.Placed t := hmust.of_eq_ok hs'
      split
      · exact .of_none hdone
      · next k ks hqueue =>
        have hks := hs'.queue
        rw [hqueue, List.forall_mem_cons] at hks
        have hrest : Placed t { s' with queue := ks, delivered := s'.delivered + 1 } :=
          ⟨hs'.cursor, hks.2, hs'.pending⟩
        exact ih hrest (List.forall_mem_cons.mpr ⟨hks.1, hdone⟩)

end Scanner

/-- The tokens of a text have their marks in it, and so has the fault that ends them; the scanner is
stopped for good by nothing but an escape beyond 31 bits. -/
theorem Token.gives_scan (t : List Char) :
    (Token.scan t).Gives (From t (hasHugeEscape t = true)) (Token.Placed t) :=
  Scanner.gives_run (Scanner.placed_start t) _ fun _ hk => absurd hk List.not_mem_nil

end Yaml
end TalkDeck
