import TalkDeck.Proofs.Yaml.Plain

/-
The tokens of single signs: a key with its colon (`deliver_key`), a dash (`deliver_dash`) and a text
(`deliver_text`).

Between two tokens the scanner stands at a cursor with a stack of open blocks and nothing waits
(`Idle`).  Each sign moves it from one such state to the next and delivers its tokens, the ends of
the blocks further in before them.
-/

namespace TalkDeck
namespace Yaml

open Layout Token

namespace Scanner

/-! ## Delivering what waits -/

/-- A scanner between two tokens: outside brackets, nothing waiting, and the columns of the open
blocks from the innermost on. -/
structure Idle (s : Scanner) (stack : List Int) : Prop where
  flow : s.flow = 0
  stack : s.indent :: s.indents = stack
  pending : s.pending = []
  queue : s.queue = []
  going : s.finished = false

/-- How many steps the text left, the open blocks and the waiting tokens allow. -/
def credit (s : Scanner) : Nat :=
  8 * s.cursor.rest.length + 2 * s.indents.length + s.queue.length

/-- The scanner delivers tokens of these kinds on its way to another state. -/
def Delivers (s : Scanner) (ks : List Kind) (s' : Scanner) : Prop :=
  ∃ (n : Nat) (ts : List Token), ts.map (·.kind) = ks ∧ n + s'.credit ≤ s.credit ∧
    ∀ fuel done, run (n + fuel) s done = run fuel s' (ts.reverse ++ done)

theorem Delivers.refl (s : Scanner) : Delivers s [] s :=
  ⟨0, [], rfl, by omega, fun fuel done => by rw [Nat.zero_add, List.reverse_nil, List.nil_append]⟩

theorem Delivers.trans {s₁ s₂ s₃ : Scanner} {ks ls : List Kind} (h : Delivers s₁ ks s₂)
    (h' : Delivers s₂ ls s₃) : Delivers s₁ (ks ++ ls) s₃ := by
  obtain ⟨n, ts, hts, hn, hrun⟩ := h
  obtain ⟨n', ts', hts', hn', hrun'⟩ := h'
  refine ⟨n + n', ts ++ ts', by rw [List.map_append, hts, hts'], by omega, fun fuel done => ?_⟩
  rw [Nat.add_assoc, hrun, hrun', List.reverse_append, List.append_assoc]

theorem run_fetch {s t s' : Scanner} (hmust : s.mustFetch = .ok (true, t)) (hfetch : t.fetch = .ok s')
    (fuel : Nat) (done : List Token) : run (fuel + 1) s done = run fuel s' done := by
  rw [run_succ, hmust]
  simp only [hfetch]

theorem run_deliver {s t : Scanner} {e : Token} {es : List Token}
    (hmust : s.mustFetch = .ok (false, t)) (hqueue : t.queue = e :: es) (fuel : Nat)
    (done : List Token) :
    run (fuel + 1) s done =
      run fuel { t with queue := es, delivered := t.delivered + 1 } (e :: done) := by
  rw [run_succ, hmust]
  simp only [hqueue]

theorem mustFetch_idle {s : Scanner} {stack : List Int} (h : Idle s stack) :
    s.mustFetch = .ok (true, s) := by
  rw [mustFetch, if_neg (by simp [h.going]), if_pos (by simp [h.queue])]

theorem Delivers.of_fetch {s t s' : Scanner} (hmust : s.mustFetch = .ok (true, t))
    (hfetch : t.fetch = .ok s') (hcredit : 1 + s'.credit ≤ s.credit) : Delivers s [] s' := by
  refine ⟨1, [], rfl, hcredit, fun fuel done => ?_⟩
  rw [Nat.add_comm, run_fetch hmust hfetch, List.reverse_nil, List.nil_append]

theorem dropStale_of_fresh {s : Scanner} (h : ∀ p ∈ s.pending, isStale s.cursor p.2 = false) :
    s.dropStale = .ok s := by
  have hnone : (s.pending.any fun p => isStale s.cursor p.2 && p.2.required) = false := by
    rw [List.any_eq_false]
    intro p hp
    rw [h p hp]
    simp
  have hkeep : s.pending.filter (fun p => !isStale s.cursor p.2) = s.pending := by
    rw [List.filter_eq_self]
    intro p hp
    rw [h p hp]
    rfl
  rw [dropStale]
  simp only [hnone, hkeep, Bool.false_eq_true, if_false]

theorem dropStale_of_stale {s : Scanner}
    (h : ∀ p ∈ s.pending, isStale s.cursor p.2 = true ∧ p.2.required = false) :
    s.dropStale = .ok { s with pending := [] } := by
  have hnone : (s.pending.any fun p => isStale s.cursor p.2 && p.2.required) = false := by
    rw [List.any_eq_false]
    intro p hp
    rw [(h p hp).2]
    simp
  have hkeep : s.pending.filter (fun p => !isStale s.cursor p.2) = [] := by
    rw [List.filter_eq_nil_iff]
    intro p hp
    rw [(h p hp).1]
    simp
  rw [dropStale]
  simp only [hnone, hkeep, Bool.false_eq_true, if_false]

/-- The first waiting token is held back while it may turn out to be a key. -/
theorem mustFetch_of_dropStale {s t : Scanner} (hgoing : s.finished = false) (hqueue : s.queue ≠ [])
    (hdrop : s.dropStale = .ok t) :
    s.mustFetch = .ok (t.pending.any fun p => p.2.number == t.delivered, t) := by
  rw [mustFetch, if_neg (by simp [hgoing]), if_neg (by simpa using hqueue), hdrop]
  rfl

theorem mustFetch_of_waiting {s : Scanner} (hqueue : s.queue ≠ [])
    (hpending : ∀ p ∈ s.pending, isStale s.cursor p.2 = false ∧ s.delivered < p.2.number) :
    s.mustFetch = .ok (false, s) := by
  have hlater : (s.pending.any fun p => p.2.number == s.delivered) = false := by
    rw [List.any_eq_false]
    intro p hp
    have hlt := (hpending p hp).2
    simp only [beq_iff_eq]
    omega
  cases hgoing : s.finished with
  | true => rw [mustFetch, if_pos hgoing]
  | false =>
    rw [mustFetch_of_dropStale hgoing hqueue (dropStale_of_fresh fun p hp => (hpending p hp).1),
      hlater]

theorem run_waiting {es q : List Token} {s : Scanner} (hqueue : s.queue = es ++ q)
    (hpending : ∀ p ∈ s.pending,
      isStale s.cursor p.2 = false ∧ s.delivered + es.length ≤ p.2.number)
    (fuel : Nat) (done : List Token) :
    run (es.length + fuel) s done =
      run fuel { s with queue := q, delivered := s.delivered + es.length } (es.reverse ++ done) := by
  induction es generalizing s done with
  | nil =>
    rw [List.nil_append] at hqueue
    rw [List.length_nil, Nat.zero_add, ← hqueue, List.reverse_nil, List.nil_append, Nat.add_zero]
  | cons t es ih =>
    have hmust : s.mustFetch = .ok (false, s) := by
      refine mustFetch_of_waiting (by rw [hqueue]; simp) fun p hp => ?_
      obtain ⟨hfresh, hnumber⟩ := hpending p hp
      rw [List.length_cons] at hnumber
      exact ⟨hfresh, by omega⟩
    rw [List.length_cons, Nat.add_right_comm, run_deliver hmust (hqueue.trans (List.cons_append ..)),
      ih rfl]
    · simp only [List.reverse_cons, List.append_assoc, List.singleton_append, Nat.add_assoc,
        Nat.add_comm 1]
    · intro p hp
      obtain ⟨hfresh, hnumber⟩ := hpending p hp
      rw [List.length_cons] at hnumber
      exact ⟨hfresh, by dsimp only; omega⟩

/-- Tokens that wait for no key are delivered one by one. -/
theorem Delivers.of_waiting {s : Scanner} {es q : List Token} (hqueue : s.queue = es ++ q)
    (hpending : ∀ p ∈ s.pending,
      isStale s.cursor p.2 = false ∧ s.delivered + es.length ≤ p.2.number) :
    Delivers s (es.map (·.kind)) { s with queue := q, delivered := s.delivered + es.length } := by
  refine ⟨es.length, es, rfl, ?_, run_waiting hqueue hpending⟩
  simp only [credit, hqueue, List.length_append]
  omega

/-! ## Moving to the next token -/

theorem skipToToken_eq {s : Scanner} (h : s.cursor.peek.toNat ≠ 0xFEFF) :
    s.skipToToken = skipLoop (s.cursor.rest.length + 1) s := by
  rw [skipToToken]
  simp only [h, and_false, if_false]

theorem skipLoop_stop {s : Scanner} {n : Nat} {cs : List Char} {m : Mark}
    (hs : s.cursor = ⟨blanks n ++ cs, m⟩) (hcs : cs = [] ∨ Starts cs) (fuel : Nat) :
    skipLoop (fuel + 1) s = { s with cursor := ⟨cs, m.right n⟩ } := by
  have hdrop : s.cursor.dropSpaces.dropComment.lineBreak = ([], ⟨cs, m.right n⟩) := by
    rcases hcs with rfl | hopens
    · rw [hs, Cursor.dropSpaces_append (by simp)]
      rfl
    · obtain ⟨c, r, rfl, hc, hspace, hhash⟩ := hopens
      have hbreak := isBreak_of_isInline hc
      rw [hs, Cursor.dropSpaces_append (by simpa using hspace)]
      simp only [Cursor.dropComment, Cursor.peek, List.headD_cons, beq_eq_false_iff_ne.mpr hhash,
        Bool.false_eq_true, if_false]
      exact Cursor.lineBreak_of_not_isBreak hbreak
  rw [skipLoop, hdrop]
  rfl

theorem skipLoop_gap {ns : List Nat} {d : Nat} {cs : List Char} {s : Scanner} {m : Mark}
    (hs : s.cursor = ⟨emptyLines ns ++ (blanks d ++ cs), m⟩) (hflow : s.flow = 0)
    (hcs : cs = [] ∨ Starts cs) {fuel : Nat} (hfuel : ns.length < fuel) :
    skipLoop fuel s =
      { s with cursor := ⟨cs, m.past d ns⟩, keyAllowed := s.keyAllowed || !ns.isEmpty } := by
  induction ns generalizing s m fuel with
  | nil =>
    obtain ⟨fuel, rfl⟩ := Nat.exists_eq_succ_of_ne_zero (Nat.ne_of_gt hfuel)
    rw [skipLoop_stop hs hcs]
    simp [Mark.past]
  | cons n ns ih =>
    obtain ⟨fuel, rfl⟩ := Nat.exists_eq_succ_of_ne_zero (Nat.ne_zero_of_lt hfuel)
    have hdrop : s.cursor.dropSpaces.dropComment.lineBreak =
        (['\n'], ⟨emptyLines ns ++ (blanks d ++ cs), (m.right n).below⟩) := by
      rw [hs, emptyLines_cons, List.append_assoc, Cursor.dropSpaces_append (by simp)]
      rfl
    rw [skipLoop, hdrop]
    simp only [List.isEmpty_cons, Bool.false_eq_true, if_false]
    have hrest := ih (s := { s with
      cursor := ⟨emptyLines ns ++ (blanks d ++ cs), (m.right n).below⟩
      keyAllowed := s.keyAllowed || !s.inFlow }) rfl hflow (Nat.lt_of_succ_lt_succ hfuel)
    rw [hrest]
    simp [inFlow, hflow, Mark.past]

/-- The next token of a scanner begins in column `c`, where a text that loosens `cs` is to come;
`keyAllowed` says whether it may open a key. -/
def Leads (s : Scanner) (keyAllowed : Bool) (c : Nat) (cs : List Char) : Prop :=
  Starts cs ∧ ∃ (ds : List Char) (m : Mark), Loosens cs ds ∧ ds.length ≤ s.cursor.rest.length ∧
    m.column = c ∧ s.skipToToken = { s with cursor := ⟨ds, m⟩, keyAllowed }

theorem toNat_peek_gap {cs : List Char} (hcs : cs = [] ∨ Starts cs) (ns : List Nat) (d : Nat)
    (m : Mark) : (Cursor.peek ⟨emptyLines ns ++ (blanks d ++ cs), m⟩).toNat ≠ 0xFEFF := by
  rcases gap_cases ns d cs with ⟨rfl, rfl⟩ | ⟨c, r, heq, hc⟩
  · rcases hcs with rfl | ⟨c, r, rfl, hc, -⟩
    · show nul.toNat ≠ 0xFEFF
      decide
    · show c.toNat ≠ 0xFEFF
      simp only [isInline, Bool.and_eq_true, bne_iff_ne] at hc
      exact hc.2
  · rw [heq]
    show c.toNat ≠ 0xFEFF
    rcases hc with rfl | rfl <;> decide

theorem length_le_emptyLines (ns : List Nat) : ns.length ≤ (emptyLines ns).length := by
  induction ns with
  | nil => exact Nat.le_refl 0
  | cons n ns ih =>
    simp only [emptyLines_cons, List.length_append, List.length_cons]
    omega

theorem skipToToken_gap {s : Scanner} {ns : List Nat} {d : Nat} {cs : List Char}
    (hs : s.cursor.rest = emptyLines ns ++ (blanks d ++ cs)) (hflow : s.flow = 0)
    (hcs : cs = [] ∨ Starts cs) :
    s.skipToToken = { s with
      cursor := ⟨cs, s.cursor.mark.past d ns⟩
      keyAllowed := s.keyAllowed || !ns.isEmpty } := by
  have hcursor : s.cursor = ⟨emptyLines ns ++ (blanks d ++ cs), s.cursor.mark⟩ := by rw [← hs]
  have hbom : s.cursor.peek.toNat ≠ 0xFEFF := by
    rw [hcursor]
    exact toNat_peek_gap hcs ns d _
  have hlength := congrArg List.length hs
  have hle := length_le_emptyLines ns
  rw [List.length_append] at hlength
  rw [skipToToken_eq hbom, skipLoop_gap hcursor hflow hcs (by omega)]

theorem skipToToken_blanks {s : Scanner} {n : Nat} {cs : List Char}
    (hs : s.cursor.rest = blanks n ++ cs) (hflow : s.flow = 0) (hcs : cs = [] ∨ Starts cs) :
    s.skipToToken = { s with cursor := ⟨cs, s.cursor.mark.right n⟩ } := by
  have hrest : s.cursor.rest = emptyLines [] ++ (blanks n ++ cs) := hs
  rw [skipToToken_gap hrest hflow hcs, List.isEmpty_nil, Bool.not_true, Bool.or_false]
  rfl

/-- A token further on in the line. -/
theorem leads_of_blanks {s : Scanner} {n : Nat} {cs : List Char}
    (hs : Loosens (blanks n ++ cs) s.cursor.rest) (hflow : s.flow = 0) (hcs : Starts cs) :
    Leads s s.keyAllowed (s.cursor.mark.column + n) cs := by
  obtain ⟨ds, hrest, hds⟩ := (loosens_append_iff ne_newline_of_mem_blanks).mp hs
  refine ⟨hcs, ds, s.cursor.mark.right n, hds, ?_, rfl,
    skipToToken_blanks hrest hflow (Or.inr (hcs.loosens hds))⟩
  rw [hrest, List.length_append]
  omega

/-- A token on a line below. -/
theorem leads_of_line {s : Scanner} {n d : Nat} {cs : List Char}
    (hs : Loosens (blanks n ++ '\n' :: (blanks d ++ cs)) s.cursor.rest) (hflow : s.flow = 0)
    (hcs : Starts cs) : Leads s true d cs := by
  obtain ⟨ns, ds, hns, hrest, hds⟩ := hs.exists_gap
  have hempty : ns.isEmpty = false := List.isEmpty_eq_false_iff.mpr hns
  refine ⟨hcs, ds, s.cursor.mark.past d ns, hds, ?_, Mark.column_past _ d hns, ?_⟩
  · rw [hrest, List.length_append, List.length_append]
    omega
  · rw [skipToToken_gap hrest hflow (Or.inr (hcs.loosens hds)), hempty, Bool.not_false, Bool.or_true]

/-- The first token of a text, at the left edge behind any lines of blanks. -/
theorem leads_of_start {s : Scanner} {cs text : List Char} (hs : s.cursor = Cursor.ofText text)
    (hallowed : s.keyAllowed = true) (hflow : s.flow = 0) (h : Loosens ('\n' :: cs) ('\n' :: text))
    (hcs : Starts cs) : Leads s true 0 cs := by
  obtain ⟨ns, ds, hns, heq, hds⟩ := Loosens.exists_gap (n := 0) (d := 0) h
  obtain ⟨n, ns, rfl⟩ := List.exists_cons_of_ne_nil hns
  cases n with
  | succ n => exact absurd (List.cons.inj heq).1 (by decide)
  | zero =>
    have htext : s.cursor.rest = emptyLines ns ++ (blanks 0 ++ ds) := by
      rw [hs]
      exact (List.cons.inj heq).2
    refine ⟨hcs, ds, s.cursor.mark.past 0 ns, hds, ?_, ?_, ?_⟩
    · rw [htext, List.length_append]
      exact Nat.le_add_left _ _
    · by_cases hnone : ns = []
      · rw [hnone, hs]
        rfl
      · exact Mark.column_past _ 0 hnone
    · rw [skipToToken_gap htext hflow (Or.inr (hcs.loosens hds)), hallowed, Bool.true_or]

/-! ## Closing blocks -/

theorem unwindLoop_eq {column j : Int} {cols js : List Int} (hcols : ∀ x ∈ cols, column < x)
    (hj : j ≤ column) {fuel : Nat} (hfuel : cols.length ≤ fuel) {s : Scanner}
    (hs : s.indent :: s.indents = cols ++ j :: js) :
    unwindLoop column fuel s =
      { s with
        queue := s.queue ++ List.replicate cols.length ⟨.blockEnd, s.cursor.mark, s.cursor.mark⟩
        indent := j
        indents := js } := by
  induction cols generalizing fuel s with
  | nil =>
    obtain ⟨hindent, hindents⟩ := List.cons.inj hs
    have hsame : { s with queue := s.queue ++ [], indent := j, indents := js } = s := by
      rw [← hindent, ← hindents, List.append_nil]
    rw [List.length_nil, List.replicate_zero, hsame]
    cases fuel with
    | zero => rfl
    | succ fuel => rw [unwindLoop, if_neg (by omega)]
  | cons x cols ih =>
    obtain ⟨hindent, hindents⟩ := List.cons.inj hs
    obtain ⟨fuel, rfl⟩ := Nat.exists_eq_succ_of_ne_zero (Nat.ne_zero_of_lt hfuel)
    have hx : column < s.indent := by
      rw [hindent]
      exact hcols x List.mem_cons_self
    have hne : s.indents ≠ [] := by
      rw [hindents]
      simp
    rw [Nat.succ_eq_add_one, unwindLoop, if_pos hx,
      ih (fun y hy => hcols y (List.mem_cons_of_mem x hy)) (by simpa using hfuel)]
    · simp only [pushHere, push, List.length_cons, List.replicate_succ, List.append_assoc,
        List.singleton_append]
    · show s.indents.headD (-1) :: s.indents.tail = cols ++ j :: js
      obtain ⟨a, as, has⟩ := List.exists_cons_of_ne_nil hne
      have hsame : s.indents = cols ++ j :: js := hindents
      rw [← hsame, has]
      rfl

theorem unwind_eq {column j : Int} {cols js : List Int} (hcols : ∀ x ∈ cols, column < x)
    (hj : j ≤ column) {s : Scanner} (hflow : s.flow = 0)
    (hs : s.indent :: s.indents = cols ++ j :: js) :
    s.unwind column =
      { s with
        queue := s.queue ++ List.replicate cols.length ⟨.blockEnd, s.cursor.mark, s.cursor.mark⟩
        indent := j
        indents := js } := by
  have hlength := congrArg List.length hs
  rw [List.length_cons, List.length_append, List.length_cons] at hlength
  rw [unwind, if_neg (by simp [inFlow, hflow]), unwindLoop_eq hcols hj (by omega) hs]

/-! ## One token -/

/-- Where a token begins, the blocks further in are closed first. -/
theorem fetch_eq {s : Scanner} {cols js : List Int} {j : Int} {keyAllowed : Bool} {cs : List Char}
    {m : Mark} (h : Idle s (cols ++ j :: js))
    (hskip : s.skipToToken = { s with cursor := ⟨cs, m⟩, keyAllowed })
    (hcols : ∀ x ∈ cols, (m.column : Int) < x) (hj : j ≤ m.column) :
    s.fetch = scanToken ⟨⟨cs, m⟩, 0, j, js, keyAllowed, [],
      List.replicate cols.length ⟨.blockEnd, m, m⟩, s.delivered, false⟩ := by
  have hdrop : s.skipToToken.dropStale = .ok { s with cursor := ⟨cs, m⟩, keyAllowed } := by
    rw [hskip, dropStale_of_fresh (by simp [h.pending])]
  have hunwind := unwind_eq hcols hj (s := { s with cursor := ⟨cs, m⟩, keyAllowed }) h.flow h.stack
  rw [fetch, hdrop]
  show scanToken (unwind (m.column : Int) { s with cursor := ⟨cs, m⟩, keyAllowed }) = _
  rw [hunwind]
  simp only [h.flow, h.pending, h.queue, h.going, List.nil_append]

theorem opensPlain_cases {c next : Char} (h : opensPlain false c next = true) :
    isIndicator c = false ∨ (isWideGap next = false ∧ (c = '-' ∨ c = '?' ∨ c = ':')) := by
  simpa [opensPlain] using h

/-- Text without quotes is told by its first characters, unless it could be a separator. -/
theorem scanToken_plain {s : Scanner} (hflow : s.flow = 0)
    (hopens : opensPlain false s.cursor.peek (s.cursor.peekAt 1) = true)
    (hedge : 0 < s.cursor.column ∨ s.cursor.peek ≠ '-' ∧ s.cursor.peek ≠ '.') :
    s.scanToken = s.scanPlain := by
  have hin : s.inFlow = false := by simp [inFlow, hflow]
  have hdash : (s.cursor.peek == '-' && s.cursor.column == 0 && s.cursor.atSeparator) = false := by
    rcases hedge with hpos | ⟨hne, -⟩
    · simp [Nat.ne_of_gt hpos]
    · simp [hne]
  have hdot : (s.cursor.peek == '.' && s.cursor.column == 0 && s.cursor.atSeparator) = false := by
    rcases hedge with hpos | ⟨-, hne⟩
    · simp [Nat.ne_of_gt hpos]
    · simp [hne]
  rw [scanToken]
  simp only [hdash, hdot, hin, hopens]
  rcases opensPlain_cases hopens with hind | ⟨hgap, hc | hc | hc⟩
  · simp only [isIndicator, isWideGap, isGap, isBreakOrEnd, Bool.or_eq_false_iff,
      List.contains_eq_mem, decide_eq_false_iff_not, List.mem_cons, not_or, beq_eq_false_iff_ne] at hind
    simp [hind]
  all_goals simp [hc, hgap, nul]

theorem scanToken_dash {s : Scanner} {r : List Char} (hcursor : s.cursor.rest = '-' :: r)
    (hr : isWideGap (r.headD nul) = true) : s.scanToken = s.scanBlockEntry := by
  have hpeek : s.cursor.peek = '-' := by rw [Cursor.peek, hcursor]; rfl
  have hnext : isWideGap (s.cursor.peekAt 1) = true := by
    rw [Cursor.peekAt, hcursor]
    cases r <;> exact hr
  have hsep : s.cursor.atSeparator = false := by
    have htwo : r.take 2 ≠ ['-', '-'] := by
      intro heq
      cases r with
      | nil => cases heq
      | cons c r =>
        simp only [List.take_succ_cons, List.cons.injEq] at heq
        rw [heq.1] at hr
        cases hr
    rw [Cursor.atSeparator, hcursor]
    simp [htwo]
  rw [scanToken]
  simp [hpeek, hnext, hsep, nul]

theorem scanToken_colon {s : Scanner} {r : List Char} (hcursor : s.cursor.rest = ':' :: r)
    (hr : isWideGap (r.headD nul) = true) : s.scanToken = s.scanValue := by
  have hpeek : s.cursor.peek = ':' := by rw [Cursor.peek, hcursor]; rfl
  have hnext : isWideGap (s.cursor.peekAt 1) = true := by
    rw [Cursor.peekAt, hcursor]
    cases r <;> exact hr
  rw [scanToken]
  simp [hpeek, hnext, nul]

theorem scanToken_end {s : Scanner} (hcursor : s.cursor.rest = []) : s.scanToken = s.scanEnd := by
  have hpeek : s.cursor.peek = nul := by rw [Cursor.peek, hcursor]; rfl
  rw [scanToken]
  simp [hpeek]

/-! ## Opening blocks -/

/-- The token that opens a block in column `c`, unless one stands there. -/
def opening (j : Int) (c : Nat) (k : Kind) : List Kind := if j < c then [k] else []

theorem length_opening (j : Int) (c : Nat) (k : Kind) : (opening j c k).length ≤ 1 := by
  rw [opening]
  split <;> simp

/-- The open blocks after that. -/
def opened (j : Int) (js : List Int) (c : Nat) : List Int :=
  if j < c then c :: j :: js else j :: js

theorem widen_eq (s : Scanner) (c : Nat) :
    ∃ i is, s.widen c = (decide (s.indent < c), { s with indent := i, indents := is }) ∧
      i :: is = opened s.indent s.indents c ∧ is.length ≤ s.indents.length + 1 := by
  rw [widen, opened]
  split
  case isTrue h => exact ⟨c, s.indent :: s.indents, by simp [h], rfl, Nat.le_refl _⟩
  case isFalse h => exact ⟨s.indent, s.indents, by simp [h], rfl, Nat.le_succ _⟩

theorem inline_singleton {ch : Char} (h : isInline ch = true) : ∀ c ∈ [ch], isInline c = true := by
  intro c hc
  rwa [List.mem_singleton.mp hc]

/-- A dash closes what stands further in and opens its sequence if it is the first. -/
theorem deliver_dash {s : Scanner} {cols js : List Int} {j : Int} {c : Nat} {r : List Char}
    (h : Idle s (cols ++ j :: js)) (hlead : Leads s true c ('-' :: r))
    (hr : isWideGap (r.headD nul) = true) (hcols : ∀ x ∈ cols, (c : Int) < x) (hj : j ≤ c) :
    ∃ s', Delivers s (List.replicate cols.length .blockEnd ++
        (opening j c .blockSequenceStart ++ [.blockEntry])) s' ∧
      Idle s' (opened j js c) ∧ s'.keyAllowed = true ∧ Loosens r s'.cursor.rest ∧
      s'.cursor.mark.column = c + 1 := by
  obtain ⟨-, _, m, hloose, hlength, rfl, hskip⟩ := hlead
  obtain ⟨r', rfl, hr'⟩ := (loosens_cons_iff (by decide)).mp hloose
  replace hr := hr'.isWideGap_headD hr
  have hstack := congrArg List.length h.stack
  rw [List.length_cons, List.length_append, List.length_cons] at hstack
  have hskip1 : Cursor.skip 1 ⟨'-' :: r', m⟩ = ⟨r', m.right 1⟩ :=
    Cursor.skip_append (u := ['-']) (inline_singleton (by decide)) r' m
  obtain ⟨i, is, hwiden, hopened, hmore⟩ := widen_eq ⟨⟨'-' :: r', m⟩, 0, j, js, true, [],
    List.replicate cols.length ⟨.blockEnd, m, m⟩, s.delivered, false⟩ m.column
  obtain ⟨es, hes⟩ : ∃ es : List Token, es = List.replicate cols.length ⟨.blockEnd, m, m⟩ ++
      ((opening j m.column .blockSequenceStart).map (⟨·, m, m⟩) ++ [⟨.blockEntry, m, m.right 1⟩]) :=
    ⟨_, rfl⟩
  have hfetch : s.fetch = .ok ⟨⟨r', m.right 1⟩, 0, i, is, true, [], es, s.delivered, false⟩ := by
    rw [fetch_eq h hskip hcols hj, scanToken_dash rfl hr, scanBlockEntry, openBlock]
    simp only [inFlow, Cursor.column, hwiden]
    by_cases hlt : j < m.column
    · simp [hlt, opening, hes, dropPending, pushHere, push, pushSign, hskip1, bind, Except.bind,
        pure, Except.pure]
    · simp [hlt, opening, hes, dropPending, push, pushSign, hskip1, bind, Except.bind, pure,
        Except.pure]
  have hkinds : es.map (·.kind) = List.replicate cols.length .blockEnd ++
      (opening j m.column .blockSequenceStart ++ [.blockEntry]) := by
    simp [hes, Function.comp_def]
  have hwait := Delivers.of_waiting (q := [])
    (s := ⟨⟨r', m.right 1⟩, 0, i, is, true, [], es, s.delivered, false⟩) (List.append_nil es).symm
    (by simp)
  rw [hkinds] at hwait
  refine ⟨_, (Delivers.of_fetch (mustFetch_idle h) hfetch ?_).trans hwait,
    ⟨rfl, hopened, rfl, rfl, rfl⟩, rfl, hr', rfl⟩
  have hopening := length_opening j m.column .blockSequenceStart
  simp only [List.length_cons] at hlength
  simp only [credit, hes, h.queue, List.length_append, List.length_replicate, List.length_map,
    List.length_cons, List.length_nil] at hmore ⊢
  omega

/-- With a key allowed, text without quotes waits for a colon. -/
theorem scanPlain_allowed {s : Scanner} (hflow : s.flow = 0) (hallowed : s.keyAllowed = true)
    (hpending : s.pending = []) {text : List Char} {stop : Mark} {ended : Bool} {c : Cursor}
    (hread : readPlain false s.indent s.cursor = ⟨text, stop, ended, c⟩) :
    s.scanPlain = .ok { s with
      cursor := c
      keyAllowed := ended
      pending := [(0, ⟨s.delivered + s.queue.length, s.indent == s.cursor.column, s.cursor.mark⟩)]
      queue := s.queue ++ [⟨.scalar text true, s.cursor.mark, stop⟩] } := by
  simp [scanPlain, notePending, hallowed, dropPending, hpending, inFlow, hflow, hread, push, bind,
    Except.bind, pure, Except.pure]

theorem scanPlain_forbidden {s : Scanner} (hflow : s.flow = 0) (hallowed : s.keyAllowed = false)
    {text : List Char} {stop : Mark} {ended : Bool} {c : Cursor}
    (hread : readPlain false s.indent s.cursor = ⟨text, stop, ended, c⟩) :
    s.scanPlain = .ok { s with
      cursor := c
      keyAllowed := ended
      queue := s.queue ++ [⟨.scalar text true, s.cursor.mark, stop⟩] } := by
  simp [scanPlain, notePending, hallowed, inFlow, hflow, hread, push, bind, Except.bind, pure,
    Except.pure]

theorem opensPlain_of_isKey {k : List Char} (h : isKey k = true) (r : List Char) (m : Mark)
    (next : Char) : opensPlain false (Cursor.peek ⟨k ++ r, m⟩) next = true := by
  obtain ⟨a, k, rfl, hindicator, -⟩ := exists_cons_of_isKey h
  show opensPlain false a next = true
  simp [opensPlain, hindicator]

theorem peek_ne_of_isKey {k : List Char} (h : isKey k = true) (r : List Char) (m : Mark) :
    Cursor.peek ⟨k ++ r, m⟩ ≠ '-' ∧ Cursor.peek ⟨k ++ r, m⟩ ≠ '.' := by
  obtain ⟨a, k, rfl, hindicator, hdot⟩ := exists_cons_of_isKey h
  refine ⟨?_, hdot⟩
  show a ≠ '-'
  rintro rfl
  cases hindicator

/-- A key that waits for its colon, `n` characters before it. -/
def keyWaiting (k r : List Char) (m : Mark) (j : Int) (js : List Int) (required : Bool)
    (queue : List Token) (delivered : Nat) : Scanner :=
  ⟨⟨':' :: r, m.right k.length⟩, 0, j, js, false,
    [(0, ⟨delivered + queue.length, required, m⟩)],
    queue ++ [⟨.scalar k true, m, m.right k.length⟩], delivered, false⟩

theorem dropStale_keyWaiting {k r : List Char} {m : Mark} {j : Int} {js : List Int} {required : Bool}
    {queue : List Token} {delivered : Nat} (hk : k.length ≤ 1024) :
    (keyWaiting k r m j js required queue delivered).dropStale =
      .ok (keyWaiting k r m j js required queue delivered) := by
  refine dropStale_of_fresh fun p hp => ?_
  obtain rfl := List.mem_singleton.mp hp
  simp [isStale, keyWaiting, Mark.right, hk]

/-- The token after a waiting key is its colon. -/
theorem fetch_keyWaiting {k r : List Char} {m : Mark} {j : Int} {js : List Int} {required : Bool}
    {delivered : Nat} (hk : k.length ≤ 1024) (hj : j ≤ m.column)
    (hr : isWideGap (r.headD nul) = true) :
    (keyWaiting k r m j js required [] delivered).fetch =
      (keyWaiting k r m j js required [] delivered).scanValue := by
  have hstart : Starts (':' :: r) := ⟨':', r, rfl, by decide, by decide, by decide⟩
  have hrest : (keyWaiting k r m j js required [] delivered).cursor.rest = blanks 0 ++ ':' :: r := rfl
  have hskip : (keyWaiting k r m j js required [] delivered).skipToToken =
      keyWaiting k r m j js required [] delivered := by
    rw [skipToToken_blanks hrest rfl (Or.inr hstart), Mark.right_zero]
    rfl
  have hcolumn : j ≤ (m.right k.length).column := by
    simp only [Mark.right]
    omega
  have hunwind : (keyWaiting k r m j js required [] delivered).unwind (m.right k.length).column =
      keyWaiting k r m j js required [] delivered :=
    unwind_eq (List.forall_mem_nil _) hcolumn rfl rfl
  rw [fetch, hskip, dropStale_keyWaiting hk]
  show scanToken ((keyWaiting k r m j js required [] delivered).unwind (m.right k.length).column) = _
  rw [hunwind, scanToken_colon rfl hr]

/-- At the colon the key token goes before the key, and the start of its mapping if it is the first. -/
theorem deliver_colon {k r : List Char} {m : Mark} {j : Int} {js : List Int} {required : Bool}
    {delivered : Nat} (hk : k.length ≤ 1024) (hj : j ≤ m.column)
    (hr : isWideGap (r.headD nul) = true) :
    ∃ s', Delivers (keyWaiting k r m j js required [] delivered)
        (opening j m.column .blockMappingStart ++ [.key, .scalar k true, .value]) s' ∧
      Idle s' (opened j js m.column) ∧ s'.keyAllowed = false ∧ s'.cursor.rest = r ∧
      s'.cursor.mark.column = m.column + k.length + 1 := by
  obtain ⟨s, hs⟩ : ∃ s, s = keyWaiting k r m j js required [] delivered := ⟨_, rfl⟩
  have hmust : s.mustFetch = .ok (true, s) := by
    rw [hs, mustFetch_of_dropStale rfl (by simp [keyWaiting]) (dropStale_keyWaiting hk)]
    simp [keyWaiting]
  have hskip1 : Cursor.skip 1 ⟨':' :: r, m.right k.length⟩ = ⟨r, m.right (k.length + 1)⟩ := by
    rw [← Mark.right_right]
    exact Cursor.skip_append (u := [':']) (inline_singleton (by decide)) r _
  obtain ⟨i, is, hwiden, hopened, hmore⟩ := widen_eq s m.column
  obtain ⟨es, hes⟩ : ∃ es : List Token, es =
      (opening j m.column .blockMappingStart).map (⟨·, m, m⟩) ++
        [⟨.key, m, m⟩, ⟨.scalar k true, m, m.right k.length⟩,
          ⟨.value, m.right k.length, m.right (k.length + 1)⟩] := ⟨_, rfl⟩
  have hfetch : s.fetch = .ok ⟨⟨r, m.right (k.length + 1)⟩, 0, i, is, false, [], es, delivered,
      false⟩ := by
    have hlookup : s.pending.lookup s.flow = some ⟨delivered, required, m⟩ := by rw [hs]; rfl
    have hflow : s.inFlow = false := by rw [hs]; rfl
    have hvalue : s.fetch = s.scanValue := by rw [hs, fetch_keyWaiting hk hj hr]
    rw [hvalue, scanValue, hlookup]
    simp only [hflow, Bool.false_eq_true, if_false, hwiden]
    by_cases hlt : j < m.column
    · simp [hs, keyWaiting, hlt, opening, hes, pushSign, push, hskip1]
    · simp [hs, keyWaiting, hlt, opening, hes, pushSign, push, hskip1]
  have hkinds : es.map (·.kind) =
      opening j m.column .blockMappingStart ++ [.key, .scalar k true, .value] := by
    simp [hes, Function.comp_def]
  have hwait := Delivers.of_waiting (q := [])
    (s := ⟨⟨r, m.right (k.length + 1)⟩, 0, i, is, false, [], es, delivered, false⟩)
    (List.append_nil es).symm (by simp)
  rw [hkinds] at hwait
  rw [← hs]
  refine ⟨_, (Delivers.of_fetch hmust hfetch ?_).trans hwait,
    ⟨rfl, by rw [hopened, hs]; rfl, rfl, rfl, rfl⟩, rfl, rfl, by simp [Mark.right, Nat.add_assoc]⟩
  have hopening := length_opening j m.column .blockMappingStart
  simp only [credit, hes, hs, keyWaiting, List.length_append, List.length_map, List.length_cons,
    List.length_nil] at hmore ⊢
  omega

/-- A key with its colon closes what stands further in and opens its mapping if it is the first. -/
theorem deliver_key {s : Scanner} {cols js : List Int} {j : Int} {c : Nat} {k r : List Char}
    (h : Idle s (cols ++ j :: js)) (hlead : Leads s true c (k ++ ':' :: r)) (hk : isKey k = true)
    (hr : isWideGap (r.headD nul) = true) (hcols : ∀ x ∈ cols, (c : Int) < x) (hj : j ≤ c) :
    ∃ s', Delivers s (List.replicate cols.length .blockEnd ++
        (opening j c .blockMappingStart ++ [.key, .scalar k true, .value])) s' ∧
      Idle s' (opened j js c) ∧ s'.keyAllowed = false ∧ Loosens r s'.cursor.rest ∧
      s'.cursor.mark.column = c + k.length + 1 := by
  obtain ⟨-, _, m, hloose, hlength, rfl, hskip⟩ := hlead
  obtain ⟨hchars, hshort, -, -⟩ := isKey_iff.mp hk
  obtain ⟨_, rfl, hcolon⟩ :=
    (loosens_append_iff (ne_newline_of_isInline fun d hd => (hchars d hd).1)).mp hloose
  obtain ⟨r', rfl, hr'⟩ := (loosens_cons_iff (by decide)).mp hcolon
  replace hr := hr'.isWideGap_headD hr
  have hstack := congrArg List.length h.stack
  rw [List.length_cons, List.length_append, List.length_cons] at hstack
  obtain ⟨ends, hends⟩ : ∃ ends : List Token, ends =
      List.replicate cols.length ⟨.blockEnd, m, m⟩ := ⟨_, rfl⟩
  have hfetch : s.fetch = .ok (keyWaiting k r' m j js (j == m.column) ends s.delivered) := by
    rw [fetch_eq h hskip hcols hj,
      scanToken_plain rfl (opensPlain_of_isKey hk _ _ _) (Or.inr (peek_ne_of_isKey hk _ _)),
      scanPlain_allowed rfl rfl rfl (readPlain_key hk hr j m), hends]
    simp [keyWaiting, Cursor.column]
  have hfirst : Delivers s [] (keyWaiting k r' m j js (j == m.column) ends s.delivered) := by
    refine Delivers.of_fetch (mustFetch_idle h) hfetch ?_
    obtain ⟨a, k, rfl, -, -⟩ := exists_cons_of_isKey hk
    simp only [credit, keyWaiting, hends, h.queue, List.length_append, List.length_replicate,
      List.length_cons, List.length_nil] at hlength ⊢
    omega
  have hwait := Delivers.of_waiting (q := [⟨.scalar k true, m, m.right k.length⟩])
    (s := keyWaiting k r' m j js (j == m.column) ends s.delivered) rfl (by
      simp [keyWaiting, isStale, Mark.right, hshort])
  obtain ⟨s', hcolon, hidle, hallowed, hrest, hcolumn⟩ := deliver_colon (k := k) hshort hj hr
  refine ⟨s', ?_, hidle, hallowed, by rwa [hrest], hcolumn⟩
  have hkinds : ends.map (·.kind) = List.replicate cols.length .blockEnd := by
    simp [hends]
  rw [hkinds] at hwait
  exact (hfirst.trans hwait).trans hcolon

/-! ## Between values -/

/-- What can stand after a value in a block of column `i`: nothing, or a line no further in. -/
def Tail (i : Int) (tail : List Char) : Prop :=
  tail = [] ∨ ∃ d cs, tail = '\n' :: (blanks d ++ cs) ∧ Opens cs ∧ (d : Int) ≤ i

theorem Tail.exists_gap {i : Int} {n : Nat} {tail es : List Char} (htail : Tail i tail)
    (h : Loosens (blanks n ++ tail) es) :
    ∃ ns d ds, es = emptyLines ns ++ (blanks d ++ ds) ∧
      (tail = [] ∧ ds = [] ∨ ns ≠ [] ∧ ∃ cs, tail = '\n' :: (blanks d ++ cs) ∧ Opens cs ∧
        Loosens cs ds ∧ (d : Int) ≤ i) := by
  rcases htail with rfl | ⟨d, cs, rfl, hcs, hd⟩
  · rw [List.append_nil] at h
    obtain ⟨ns, d, rfl⟩ := h.exists_end
    exact ⟨ns, d, [], by rw [List.append_nil], Or.inl ⟨rfl, rfl⟩⟩
  · obtain ⟨ns, ds, hns, rfl, hds⟩ := h.exists_gap
    exact ⟨ns, d, ds, rfl, Or.inr ⟨hns, cs, rfl, hcs, hds, hd⟩⟩

/-- The scanner after a value, with `tail` to come.  At the very end the last text may still wait to
be delivered, as a colon could follow. -/
inductive Stands : Scanner → List Int → List Char → List Kind → Prop where
  | line {s : Scanner} {stack : List Int} {d : Nat} {cs : List Char} (hidle : Idle s stack)
    (hlead : Leads s true d cs) : Stands s stack ('\n' :: (blanks d ++ cs)) []
  | last {s : Scanner} {stack : List Int} {ns : List Nat} {d : Nat} (hidle : Idle s stack)
    (hrest : s.cursor.rest = emptyLines ns ++ blanks d) : Stands s stack [] []
  | waiting {s : Scanner} {k : PendingKey} {t : Token} (hflow : s.flow = 0)
    (hgoing : s.finished = false) (hrest : s.cursor.rest = []) (hqueue : s.queue = [t])
    (hpending : s.pending = [(0, k)]) (hnumber : k.number = s.delivered)
    (hfree : k.required = false) (hfresh : isStale s.cursor k = false) :
    Stands s (s.indent :: s.indents) [] [t.kind]

/-- Where a value is left out, nothing is delivered. -/
theorem stands_nothing {s : Scanner} {stack : List Int} {i : Int} {n : Nat} {tail : List Char}
    (h : Idle s stack) (hrest : Loosens (blanks n ++ tail) s.cursor.rest) (htail : Tail i tail) :
    Stands s stack tail [] := by
  rcases htail with rfl | ⟨d, cs, rfl, hcs, -⟩
  · rw [List.append_nil] at hrest
    obtain ⟨ns, d, heq⟩ := hrest.exists_end
    exact .last h heq
  · exact .line h (leads_of_line hrest h.flow hcs.first)

/-- A token that cannot open a key any more is delivered. -/
theorem Delivers.of_token {s : Scanner} {t : Token} (hgoing : s.finished = false)
    (hqueue : s.queue = [t])
    (hpending : ∀ p ∈ s.pending, isStale s.cursor p.2 = true ∧ p.2.required = false) :
    Delivers s [t.kind]
      { s with queue := [], pending := [], delivered := s.delivered + 1 } := by
  have hmust : s.mustFetch = .ok (false, { s with pending := [] }) :=
    mustFetch_of_dropStale hgoing (by simp [hqueue]) (dropStale_of_stale hpending)
  refine ⟨1, [t], rfl, ?_, fun fuel done => ?_⟩
  · simp only [credit, hqueue, List.length_cons, List.length_nil]
    omega
  · rw [Nat.add_comm, run_deliver hmust hqueue]
    rfl

theorem opensPlain_of_isText {t : List Char} (h : isText t = true) (tail : List Char) (m : Mark) :
    opensPlain false (Cursor.peek ⟨t ++ tail, m⟩) (Cursor.peekAt ⟨t ++ tail, m⟩ 1) = true := by
  obtain ⟨-, hopens, -⟩ := isText_iff.mp h
  obtain ⟨c, t, rfl⟩ := List.exists_cons_of_ne_nil (ne_nil_of_isText h)
  cases t with
  | nil =>
    -- A text of one character is no sign, as signs need a character after them.
    rcases opensPlain_cases hopens with hind | ⟨hgap, -⟩
    · show opensPlain false c _ = true
      simp only [List.headD_cons] at hind
      simp [opensPlain, hind]
    · cases hgap
  | cons d t => exact hopens

theorem starts_of_isText {t : List Char} (h : isText t = true) (tail : List Char) :
    Starts (t ++ tail) := by
  obtain ⟨hinline, -, -, hhead, -, -⟩ := isText_iff.mp h
  have hhash := head?_ne_of_isText h
  obtain ⟨c, t, rfl⟩ := List.exists_cons_of_ne_nil (ne_nil_of_isText h)
  refine ⟨c, t ++ tail, rfl, hinline c List.mem_cons_self, ?_, ?_⟩
  · rintro rfl
    cases hhead
  · rintro rfl
    exact hhash rfl

/-- Fetching a text reads it and the gap behind it.  Where a key is allowed it may turn out to be one,
but none that has to be there. -/
theorem fetch_text {s : Scanner} {j : Int} {js : List Int} {keyAllowed : Bool} {t ds : List Char}
    {ns : List Nat} {d : Nat} {m : Mark} (h : Idle s (j :: js))
    (hskip : s.skipToToken = { s with
      cursor := ⟨t ++ (emptyLines ns ++ (blanks d ++ ds)), m⟩
      keyAllowed })
    (ht : isText t = true) (hj : j < m.column) (hpos : 0 < m.column) (hends : Ends (j + 1) ns d ds) :
    ∃ pending, s.fetch = .ok ⟨⟨ds, (m.right t.length).past d ns⟩, 0, j, js, !ns.isEmpty, pending,
        [⟨.scalar t true, m, m.right t.length⟩], s.delivered, false⟩ ∧
      (pending = [] ∨ pending = [(0, ⟨s.delivered, false, m⟩)]) := by
  have hread := readPlain_words ht hj hends
  have hplain := scanToken_plain
    (s := ⟨⟨t ++ (emptyLines ns ++ (blanks d ++ ds)), m⟩, 0, j, js, keyAllowed, [], [], s.delivered,
      false⟩) rfl (opensPlain_of_isText ht _ m) (Or.inl hpos)
  have hidle : Idle s ([] ++ j :: js) := h
  rw [fetch_eq hidle hskip (by simp) (by omega), List.length_nil, List.replicate_zero, hplain]
  cases keyAllowed with
  | true =>
    have hfree : (j == (m.column : Int)) = false := by
      rw [beq_eq_false_iff_ne]
      omega
    refine ⟨_, scanPlain_allowed rfl rfl rfl hread, Or.inr ?_⟩
    simp [Cursor.column, hfree]
  | false => exact ⟨_, scanPlain_forbidden rfl rfl hread, Or.inl rfl⟩

/-- A scanner between two tokens, behind the gap that ends a value. -/
theorem Idle.stands {s : Scanner} {stack : List Int} {i : Int} {ns : List Nat} {d : Nat}
    {ds tail : List Char} (h : Idle s stack) (hcursor : s.cursor.rest = ds)
    (hallowed : s.keyAllowed = !ns.isEmpty) (hcolumn : ns ≠ [] → s.cursor.mark.column = d)
    (hds : tail = [] ∧ ds = [] ∨ ns ≠ [] ∧ ∃ cs, tail = '\n' :: (blanks d ++ cs) ∧ Opens cs ∧
      Loosens cs ds ∧ (d : Int) ≤ i) : Stands s stack tail [] := by
  rcases hds with ⟨rfl, rfl⟩ | ⟨hns, cs, rfl, hcs, hloose, -⟩
  · have hrest : s.cursor.rest = emptyLines [] ++ blanks 0 := hcursor
    exact .last h hrest
  · have hrest : Loosens (blanks 0 ++ cs) s.cursor.rest := by
      rw [hcursor]
      exact hloose
    have hlead := leads_of_blanks hrest h.flow hcs.first
    rw [hallowed, List.isEmpty_eq_false_iff.mpr hns, Nat.add_zero, hcolumn hns] at hlead
    exact .line h hlead

/-- A text is read up to the end of its line, and the gap behind it too. -/
theorem deliver_text {s : Scanner} {j : Int} {js : List Int} {keyAllowed : Bool} {c : Nat}
    {t tail : List Char} (h : Idle s (j :: js)) (hlead : Leads s keyAllowed c (t ++ tail))
    (ht : isText t = true) (hj : j < c) (hpos : 0 < c) (htail : Tail j tail) :
    ∃ s' ks w, Delivers s ks s' ∧ Stands s' (j :: js) tail w ∧ ks ++ w = [.scalar t true] := by
  obtain ⟨-, _, m, hloose, hlength, rfl, hskip⟩ := hlead
  obtain ⟨_, rfl, hgap⟩ :=
    (loosens_append_iff (ne_newline_of_isInline (isText_iff.mp ht).1)).mp hloose
  obtain ⟨ns, d, ds, rfl, hds⟩ := htail.exists_gap (n := 0) hgap
  have hends : Ends (j + 1) ns d ds := by
    rcases hds with ⟨-, rfl⟩ | ⟨hns, cs, -, hcs, hloose, hd⟩
    · exact Or.inl rfl
    · exact Or.inr ⟨hns, hcs.loosens hloose, by omega⟩
  obtain ⟨cursor, hcursor⟩ : ∃ cursor : Cursor, cursor = ⟨ds, (m.right t.length).past d ns⟩ := ⟨_, rfl⟩
  obtain ⟨pending, hfetch, hpending⟩ := fetch_text h hskip ht hj hpos hends
  rw [← hcursor] at hfetch
  have hstart : Delivers s [] ⟨cursor, 0, j, js, !ns.isEmpty, pending,
      [⟨.scalar t true, m, m.right t.length⟩], s.delivered, false⟩ := by
    refine Delivers.of_fetch (mustFetch_idle h) hfetch ?_
    have ht0 := List.length_pos_iff.mpr (ne_nil_of_isText ht)
    have hstack := congrArg List.length h.stack
    simp only [List.length_append] at hlength
    simp only [credit, hcursor, h.queue, List.length_cons, List.length_nil] at hstack ⊢
    omega
  -- Unless the text is the last and a colon could still follow, it is delivered at once.
  by_cases hstale : ∀ p ∈ pending, isStale cursor p.2 = true
  · have hfree : ∀ p ∈ pending, isStale cursor p.2 = true ∧ p.2.required = false := by
      intro p hp
      refine ⟨hstale p hp, ?_⟩
      rcases hpending with rfl | rfl
      · cases hp
      · rw [List.mem_singleton.mp hp]
    have htoken := Delivers.of_token (t := ⟨.scalar t true, m, m.right t.length⟩)
      (s := ⟨cursor, 0, j, js, !ns.isEmpty, pending, [⟨.scalar t true, m, m.right t.length⟩],
        s.delivered, false⟩) rfl rfl hfree
    refine ⟨_, [.scalar t true], [], hstart.trans htoken, ?_, rfl⟩
    have hidle : Idle ⟨cursor, 0, j, js, !ns.isEmpty, [], [], s.delivered + 1, false⟩ (j :: js) :=
      ⟨rfl, rfl, rfl, rfl, rfl⟩
    exact hidle.stands (by rw [hcursor]) rfl
      (fun hns => by rw [hcursor]; exact Mark.column_past _ d hns) hds
  · have hpending : pending = [(0, ⟨s.delivered, false, m⟩)] := by
      rcases hpending with rfl | rfl
      · simp at hstale
      · rfl
    subst hpending
    have hfresh : isStale cursor ⟨s.delivered, false, m⟩ = false := by simpa using hstale
    rcases hds with ⟨rfl, rfl⟩ | ⟨hns, -⟩
    · refine ⟨_, [], [.scalar t true], hstart, ?_, rfl⟩
      exact .waiting (t := ⟨.scalar t true, m, m.right t.length⟩) (k := ⟨s.delivered, false, m⟩)
        rfl rfl (by rw [hcursor]) rfl rfl rfl rfl hfresh
    · -- On a later line no colon can follow.
      simp [isStale, hcursor, Mark.line_past, Mark.right, hns] at hfresh

end Scanner
end Yaml
end TalkDeck
