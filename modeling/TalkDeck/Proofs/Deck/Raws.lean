import TalkDeck.Proofs.Deck.Boundary
import TalkDeck.Proofs.Position

/-
The blocks of a deck in one pass over its lines.

Slides are cut first and blocks are looked for in each of them.  `rawsFrom` does both at once, with a
state of two parts: whether code is open, and the block that is open.  It finds the same blocks
(`raws_eq`), so a deck can be read when each of them can (`exists_create`), and a position lies in the
content of one block at most (`blockAt?_eq_some`).
-/

namespace TalkDeck

namespace Block

/-! ## One line after the other -/

/-- Whether code is open, and the block that is open: the line of its fence and its content, newest
first. -/
abbrev State := Bool × Option (Nat × List Line)

/-- The block that a line ends, if any, and the one open after it. -/
def enter (n : Nat) (block : Option (Nat × List Line)) (l : Line) :
    List Raw × Option (Nat × List Line) :=
  match block with
  | none => ([], if l.isActionFence then some (n, []) else none)
  | some (first, content) =>
    if l.isFenceClose then ([⟨first, n, content.reverse, false⟩], none)
    else ([], some (first, l :: content))

/-- What line `n` does to the state: a delimiter outside code ends the slide and the block in it. -/
def advance (n : Nat) (s : State) (l : Line) : List Raw × State :=
  if l.isFence then ((enter n s.2 l).1, (!s.1, (enter n s.2 l).2))
  else if !s.1 && l.isDelimiter then (scan n s.2 [], (s.1, none))
  else ((enter n s.2 l).1, (s.1, (enter n s.2 l).2))

def rawsFrom (n : Nat) (s : State) : List Line → List Raw
  | [] => scan n s.2 []
  | l :: ls => (advance n s l).1 ++ rawsFrom (n + 1) (advance n s l).2 ls

theorem scan_cons (n : Nat) (block : Option (Nat × List Line)) (l : Line) (ls : List Line) :
    scan n block (l :: ls) = (enter n block l).1 ++ scan (n + 1) (enter n block l).2 ls := by
  cases block with
  | none => rw [scan, enter, List.nil_append]
  | some b =>
    rw [scan, enter]
    split
    · rfl
    · rfl

/-! ## The same blocks as slide by slide -/

/-- The blocks of the lines from the first number of a span up to the second. -/
def ofSpan (all : List Line) (p : Nat × Nat) : List Raw :=
  scan p.1 none ((all.drop p.1).take (p.2 - p.1))

/-- The spans after the first. -/
def laterSpans (bs : List Nat) (size : Nat) : List (Nat × Nat) :=
  match bs with
  | [] => []
  | b :: bs => Document.spans (b + 1) bs size

theorem spans_eq_cons (start : Nat) (bs : List Nat) (size : Nat) :
    Document.spans start bs size = (start, bs.headD size) :: laterSpans bs size := by
  cases bs <;> rfl

theorem le_of_mem_boundariesFrom {n b : Nat} {inCode : Bool} {ls : List Line}
    (h : b ∈ Document.boundariesFrom n inCode ls) : n ≤ b := by
  induction ls generalizing n inCode with
  | nil => cases h
  | cons l ls ih =>
    rw [Document.boundariesFrom] at h
    split at h
    · exact Nat.le_of_succ_le (ih h)
    · split at h
      · rcases List.mem_cons.mp h with rfl | h
        · exact Nat.le_refl _
        · exact Nat.le_of_succ_le (ih h)
      · exact Nat.le_of_succ_le (ih h)

theorem le_headD_boundariesFrom {n size : Nat} (inCode : Bool) (ls : List Line) (hsize : n ≤ size) :
    n ≤ (Document.boundariesFrom n inCode ls).headD size := by
  cases h : Document.boundariesFrom n inCode ls with
  | nil => exact hsize
  | cons b bs => exact le_of_mem_boundariesFrom (h ▸ List.mem_cons_self)

/-- One pass is the pass over the slide in progress, and those over the slides after it. -/
theorem rawsFrom_eq {all ls : List Line} {n : Nat} (hls : all.drop n = ls)
    (hsize : n + ls.length = all.length) (s : State) :
    rawsFrom n s ls =
      scan n s.2 (ls.take ((Document.boundariesFrom n s.1 ls).headD all.length - n)) ++
        (laterSpans (Document.boundariesFrom n s.1 ls) all.length).flatMap (ofSpan all) := by
  induction ls generalizing n s with
  | nil => simp [rawsFrom, Document.boundariesFrom, laterSpans]
  | cons l ls ih =>
    have hnext : all.drop (n + 1) = ls := by
      rw [← List.drop_drop, hls]
      rfl
    have hsize' : n + 1 + ls.length = all.length := by
      rw [List.length_cons] at hsize
      omega
    -- A line that ends no slide belongs to the slide in progress.
    have hstep : ∀ inCode, Document.boundariesFrom n s.1 (l :: ls) =
        Document.boundariesFrom (n + 1) inCode ls →
        advance n s l = ((enter n s.2 l).1, (inCode, (enter n s.2 l).2)) →
        rawsFrom n s (l :: ls) =
          scan n s.2
            ((l :: ls).take ((Document.boundariesFrom n s.1 (l :: ls)).headD all.length - n)) ++
          (laterSpans (Document.boundariesFrom n s.1 (l :: ls)) all.length).flatMap (ofSpan all) := by
      intro inCode hboundaries hadvance
      have hle := le_headD_boundariesFrom inCode ls
        (show n + 1 ≤ all.length by omega)
      obtain ⟨k, hk⟩ := Nat.exists_eq_add_of_le hle
      have htake : (Document.boundariesFrom (n + 1) inCode ls).headD all.length - n = k + 1 := by omega
      have htake' : (Document.boundariesFrom (n + 1) inCode ls).headD all.length - (n + 1) = k := by
        omega
      rw [rawsFrom, hadvance, ih hnext hsize', hboundaries]
      simp only
      rw [htake, htake', List.take_succ_cons, scan_cons, List.append_assoc]
    rw [Document.boundariesFrom] at hstep ⊢
    by_cases hfence : l.isFence = true
    · rw [if_pos hfence] at hstep ⊢
      exact hstep (!s.1) rfl (by rw [advance, if_pos hfence])
    · rw [if_neg hfence] at hstep ⊢
      by_cases hdelimiter : (!s.1 && l.isDelimiter) = true
      · rw [if_pos hdelimiter, rawsFrom, advance, if_neg hfence, if_pos hdelimiter, ih hnext hsize']
        rw [List.headD_cons, Nat.sub_self, List.take_zero, laterSpans, spans_eq_cons,
          List.flatMap_cons, ofSpan, hnext]
      · rw [if_neg hdelimiter] at hstep ⊢
        exact hstep s.1 rfl (by rw [advance, if_neg hfence, if_neg hdelimiter])

end Block

namespace Document

variable {limits : Limits} {uri content sequenceType : String} {version : Int} {d : Document}

/-- The blocks of a deck's lines. -/
def raws (all : List Line) : List Block.Raw :=
  Block.rawsFrom (bodyStart (frontmatterOf all)) (false, none)
    (all.drop (bodyStart (frontmatterOf all)))

theorem raws_eq (all : List Line) :
    raws all = (spans (bodyStart (frontmatterOf all))
      (boundariesFrom (bodyStart (frontmatterOf all)) false
        (all.drop (bodyStart (frontmatterOf all)))) all.length).flatMap (Block.ofSpan all) := by
  have hle := bodyStart_le all
  rw [raws, Block.rawsFrom_eq rfl (by rw [List.length_drop]; omega), Block.spans_eq_cons,
    List.flatMap_cons]
  rfl

theorem slideOf_blocks {all : List Line} {index : Nat} {p : Nat × Nat} {s : Slide}
    (h : slideOf limits sequenceType all index p.1 p.2 = .ok s) :
    List.Forall₂ (fun r b => Block.ofRaw limits sequenceType r = .ok b)
      (Block.ofSpan all p) s.blocks := by
  rcases Nat.lt_or_ge p.1 p.2 with hlt | hge
  · obtain ⟨ls, rfl, -, -, -, hblocks, -⟩ := (slideOf_eq_ok_iff hlt).mp h
    exact hblocks
  · rw [slideOf_empty hge] at h
    obtain rfl := Except.ok.inj h
    rw [Block.ofSpan, Nat.sub_eq_zero_of_le hge, List.take_zero]
    exact .nil

/-- Each block of a deck is read from its lines. -/
theorem blocks_of_create (h : create limits uri version content sequenceType = .ok d) :
    List.Forall₂ (fun r b => Block.ofRaw limits sequenceType r = .ok b) (raws d.lines) d.blocks := by
  have hfront := (create_eq_ok_iff.mp h).2.2.2.1
  have hslides := slides_of_create h
  rw [raws_eq, ← hfront]
  change List.Forall₂ _ (d.slideSpans.flatMap (Block.ofSpan d.lines)) (d.slides.flatMap (·.blocks))
  generalize d.slideSpans = ps at hslides
  generalize d.slides = ss at hslides
  generalize 0 = k at hslides
  induction ps generalizing ss k with
  | nil =>
    rw [List.zipIdx_nil, List.forall₂_nil_left_iff] at hslides
    rw [hslides]
    exact .nil
  | cons p ps ih =>
    rw [List.zipIdx_cons] at hslides
    obtain ⟨s, ss, hs, hss, rfl⟩ := List.forall₂_cons_left_iff.mp hslides
    rw [List.flatMap_cons, List.flatMap_cons]
    exact List.rel_append (slideOf_blocks hs) (ih ss (k + 1) hss)

/-- A block of a deck and the lines it was read from. -/
theorem exists_raw_of_mem_blocks (h : create limits uri version content sequenceType = .ok d)
    {b : Block} (hb : b ∈ d.blocks) :
    ∃ r ∈ raws d.lines, ∃ o, Fragment.read limits (Text.unlines r.content) = .ok o ∧
      b = Block.ofOutcome sequenceType r o := by
  have hblocks := blocks_of_create h
  rw [List.forall₂_iff_get] at hblocks
  obtain ⟨i, hi, rfl⟩ := List.getElem_of_mem hb
  obtain ⟨o, ho, hb⟩ := bind_eq_ok_iff.mp (hblocks.2 i (hblocks.1 ▸ hi) hi)
  exact ⟨_, List.get_mem _ _, o, ho, (Except.ok.inj hb).symm⟩

theorem exists_block_of_mem_raws (h : create limits uri version content sequenceType = .ok d)
    {r : Block.Raw} (hr : r ∈ raws d.lines) :
    ∃ b ∈ d.blocks, Block.ofRaw limits sequenceType r = .ok b := by
  have hblocks := blocks_of_create h
  rw [List.forall₂_iff_get] at hblocks
  obtain ⟨i, hi, rfl⟩ := List.getElem_of_mem hr
  exact ⟨_, List.get_mem _ _, hblocks.2 i hi (hblocks.1 ▸ hi)⟩

theorem exists_forall₂ {α β : Type} {R : α → β → Prop} {xs : List α} (h : ∀ x ∈ xs, ∃ y, R x y) :
    ∃ ys, List.Forall₂ R xs ys := by
  induction xs with
  | nil => exact ⟨[], .nil⟩
  | cons x xs ih =>
    obtain ⟨y, hy⟩ := h x List.mem_cons_self
    obtain ⟨ys, hys⟩ := ih fun z hz => h z (List.mem_cons_of_mem x hz)
    exact ⟨y :: ys, .cons hy hys⟩

theorem exists_slideOf {all : List Line} (index : Nat) {p : Nat × Nat}
    (h : ∀ r ∈ Block.ofSpan all p, ∃ b, Block.ofRaw limits sequenceType r = .ok b) :
    ∃ s, slideOf limits sequenceType all index p.1 p.2 = .ok s := by
  rcases Nat.lt_or_ge p.1 p.2 with hlt | hge
  · obtain ⟨blocks, hblocks⟩ := exists_forall₂ h
    rw [slideOf, if_neg (Nat.not_le.mpr hlt)]
    exact ⟨_, bind_eq_ok_iff.mpr ⟨blocks, mapM_eq_ok_iff.mpr hblocks, rfl⟩⟩
  · exact ⟨_, slideOf_empty hge⟩

/-- A deck can be read when each of its blocks can. -/
theorem exists_create (uri : String) (version : Int)
    (h : ∀ r ∈ raws (Text.lines content.toList), ∃ b, Block.ofRaw limits sequenceType r = .ok b) :
    ∃ d, create limits uri version content sequenceType = .ok d := by
  rw [raws_eq] at h
  have hslides : ∃ slides, slidesOf limits sequenceType (Text.lines content.toList)
      (frontmatterOf (Text.lines content.toList)) = .ok slides := by
    have hall : ∀ q ∈ (spans (bodyStart (frontmatterOf (Text.lines content.toList)))
        (boundariesFrom (bodyStart (frontmatterOf (Text.lines content.toList))) false
          ((Text.lines content.toList).drop
            (bodyStart (frontmatterOf (Text.lines content.toList)))))
        (Text.lines content.toList).length).zipIdx, ∃ s,
          slideOf limits sequenceType (Text.lines content.toList) q.2 q.1.1 q.1.2 = .ok s := by
      intro q hq
      refine exists_slideOf q.2 fun r hr => h r (List.mem_flatMap.mpr ⟨q.1, ?_, hr⟩)
      exact List.fst_mem_of_mem_zipIdx hq
    obtain ⟨slides, hslides⟩ := exists_forall₂ hall
    exact ⟨slides, mapM_eq_ok_iff.mpr hslides⟩
  obtain ⟨slides, hslides⟩ := hslides
  exact ⟨_, bind_eq_ok_iff.mpr ⟨slides, hslides, rfl⟩⟩

end Document

namespace Block

/-! ## The order of blocks -/

/-- The open block has the lines since its fence. -/
def State.Counts (s : State) (n : Nat) : Prop :=
  ∀ b ∈ s.2, b.1 + 1 + b.2.length = n

theorem isFence_of_isFenceClose {l : Line} (h : l.isFenceClose = true) : l.isFence = true := by
  rw [Line.isFenceClose, Option.any_eq_true] at h
  obtain ⟨rest, hrest, -⟩ := h
  rw [Line.isFence, hrest]
  rfl

/-- A line that ends no slide is entered into the slide in progress. -/
theorem advance_eq (n : Nat) (s : State) (l : Line) :
    (∃ inCode, advance n s l = ((enter n s.2 l).1, (inCode, (enter n s.2 l).2))) ∨
      advance n s l = (scan n s.2 [], (s.1, none)) := by
  rw [advance]
  split
  · exact Or.inl ⟨!s.1, rfl⟩
  · split
    · exact Or.inr rfl
    · exact Or.inl ⟨s.1, rfl⟩

theorem enter_none (n : Nat) (l : Line) :
    (enter n none l).1 = [] ∧ ((enter n none l).2 = none ∨ (enter n none l).2 = some (n, [])) := by
  rw [enter]
  split
  · exact ⟨rfl, Or.inr rfl⟩
  · exact ⟨rfl, Or.inl rfl⟩

theorem enter_some (n first : Nat) (content : List Line) (l : Line) :
    enter n (some (first, content)) l = ([⟨first, n, content.reverse, false⟩], none) ∨
      enter n (some (first, content)) l = ([], some (first, l :: content)) := by
  rw [enter]
  split
  · exact Or.inl rfl
  · exact Or.inr rfl

/-- What one line can do: end the open block, open one, or lengthen the open one. -/
theorem advance_cases (n : Nat) (s : State) (l : Line) :
    (advance n s l).1 = [] ∧ s.2 = none ∧
        ((advance n s l).2.2 = none ∨ (advance n s l).2.2 = some (n, [])) ∨
      (∃ first content, s.2 = some (first, content) ∧ (advance n s l).2.2 = none ∧
        ∃ last unclosed, (advance n s l).1 = [⟨first, last, content.reverse, unclosed⟩]) ∨
      ∃ first content, s.2 = some (first, content) ∧ (advance n s l).1 = [] ∧
        (advance n s l).2.2 = some (first, l :: content) := by
  obtain ⟨inCode, block⟩ := s
  cases block with
  | none =>
    left
    rcases advance_eq n (inCode, none) l with ⟨inCode', heq⟩ | heq
    · obtain ⟨hnil, hopen⟩ := enter_none n l
      rw [heq]
      exact ⟨hnil, rfl, hopen⟩
    · rw [heq]
      exact ⟨rfl, rfl, Or.inl rfl⟩
  | some b =>
    obtain ⟨first, content⟩ := b
    right
    rcases advance_eq n (inCode, some (first, content)) l with ⟨inCode', heq⟩ | heq
    · rw [heq]
      rcases enter_some n first content l with henter | henter
      · exact Or.inl ⟨first, content, rfl, by rw [henter], n, false, by rw [henter]⟩
      · exact Or.inr ⟨first, content, rfl, by rw [henter], by rw [henter]⟩
    · rw [heq]
      exact Or.inl ⟨first, content, rfl, rfl, n - 1, true, rfl⟩

/-- The block that a line ends is the open one. -/
theorem first_of_mem_advance {n : Nat} {s : State} {l : Line} {r : Raw}
    (h : r ∈ (advance n s l).1) : ∃ content, s.2 = some (r.first, content) := by
  rcases advance_cases n s l with ⟨hnil, -⟩ | ⟨first, content, hs, -, last, unclosed, hone⟩ |
    ⟨-, -, -, hnil, -⟩
  · rw [hnil] at h
    cases h
  · rw [hone] at h
    obtain rfl := List.mem_singleton.mp h
    exact ⟨content, hs⟩
  · rw [hnil] at h
    cases h

/-- The block that is open behind a line was open before it, or opens there. -/
theorem open_of_advance {n first : Nat} {s : State} {l : Line} {content : List Line}
    (h : (advance n s l).2.2 = some (first, content)) :
    (∃ content', s.2 = some (first, content')) ∨ n = first := by
  rcases advance_cases n s l with ⟨-, -, hnone | hopen⟩ | ⟨-, -, -, hnone, -⟩ |
    ⟨first', content', hs, -, hopen⟩
  · rw [hnone] at h
    cases h
  · rw [hopen] at h
    cases h
    exact Or.inr rfl
  · rw [hnone] at h
    cases h
  · rw [hopen] at h
    cases h
    exact Or.inl ⟨content', hs⟩

theorem State.Counts.advance {s : State} {n : Nat} (h : s.Counts n) (l : Line) :
    State.Counts (Block.advance n s l).2 (n + 1) := by
  intro b hb
  rcases advance_cases n s l with ⟨-, -, hnone | hopen⟩ | ⟨first, content, -, hnone, -⟩ |
    ⟨first, content, hs, -, hopen⟩
  · rw [hnone] at hb
    cases hb
  · rw [hopen] at hb
    cases hb
    rfl
  · rw [hnone] at hb
    cases hb
  · rw [hopen] at hb
    cases hb
    have hcount := h (first, content) hs
    simp only [List.length_cons] at hcount ⊢
    omega

/-- A block found from line `n` on is the open one, or opens there. -/
theorem first_of_mem_rawsFrom {n : Nat} {s : State} {ls : List Line} {r : Raw}
    (h : r ∈ rawsFrom n s ls) : (∃ content, s.2 = some (r.first, content)) ∨ n ≤ r.first := by
  induction ls generalizing n s with
  | nil =>
    rw [rawsFrom] at h
    cases hs : s.2 with
    | none =>
      rw [hs] at h
      cases h
    | some b =>
      rw [hs] at h
      obtain rfl := List.mem_singleton.mp h
      exact Or.inl ⟨b.2, rfl⟩
  | cons l ls ih =>
    rcases List.mem_append.mp h with h | h
    · exact Or.inl (first_of_mem_advance h)
    · rcases ih h with ⟨content, hopen⟩ | hle
      · rcases open_of_advance hopen with hs | hn
        · exact Or.inl hs
        · exact Or.inr (Nat.le_of_eq hn)
      · exact Or.inr (Nat.le_of_succ_le hle)

/-- The last line of a block's content; of an empty content, the line after the fence. -/
def Raw.stop (r : Raw) : Nat := r.first + 1 + (r.content.length - 1)

/-- A block's content ends before the next block opens. -/
theorem pairwise_rawsFrom {n : Nat} {s : State} (h : s.Counts n) (ls : List Line) :
    (rawsFrom n s ls).Pairwise fun r r' => r.stop ≤ r'.first := by
  induction ls generalizing n s with
  | nil =>
    rw [rawsFrom]
    cases s.2 with
    | none => exact .nil
    | some b => exact List.pairwise_singleton _ _
  | cons l ls ih =>
    have hrest := ih (h.advance l)
    rw [rawsFrom]
    rcases advance_cases n s l with ⟨hnil, -⟩ | ⟨first, content, hs, hnone, last, unclosed, hone⟩ |
      ⟨-, -, -, hnil, -⟩
    · rw [hnil]
      exact hrest
    · rw [hone, List.singleton_append, List.pairwise_cons]
      refine ⟨fun r hr => ?_, hrest⟩
      have hcount : first + 1 + content.length = n := h (first, content) hs
      rcases first_of_mem_rawsFrom hr with ⟨content', hr'⟩ | hle
      · rw [hnone] at hr'
        cases hr'
      · simp only [Raw.stop, List.length_reverse]
        omega
    · rw [hnil]
      exact hrest

end Block

namespace Document

variable {limits : Limits} {uri content sequenceType : String} {version : Int} {d : Document}

/-! ## The block at a position -/

/-- A test that no two members in their order pass finds the member that passes it. -/
theorem find?_eq_some_of_pairwise {α : Type} {R : α → α → Prop} {p : α → Bool} {xs : List α}
    (h : xs.Pairwise R) (hR : ∀ x ∈ xs, ∀ y ∈ xs, R x y → p x = true → p y = true → False) {x : α}
    (hx : x ∈ xs) (hp : p x = true) : xs.find? p = some x := by
  induction h with
  | nil => cases hx
  | @cons y ys hy _ ih =>
    rcases List.mem_cons.mp hx with rfl | hx
    · exact List.find?_cons_of_pos hp
    · rw [List.find?_cons_of_neg fun hpy =>
          hR y List.mem_cons_self x (List.mem_cons_of_mem y hx) (hy x hx) hpy hp,
        ih (fun a ha b hb => hR a (List.mem_cons_of_mem y ha) b (List.mem_cons_of_mem y hb)) hx]

theorem pairwise_blocks (h : create limits uri version content sequenceType = .ok d) :
    d.blocks.Pairwise fun b b' => b.contentRange.stop.line < b'.contentRange.start.line := by
  have hraws : (raws d.lines).Pairwise fun r r' => r.stop ≤ r'.first :=
    Block.pairwise_rawsFrom (fun b hb => by cases hb) _
  have hblocks := blocks_of_create h
  generalize raws d.lines = rs at hraws hblocks
  generalize d.blocks = bs at hblocks
  induction hblocks with
  | nil => exact .nil
  | @cons r b rs bs hb hbs ih =>
    obtain ⟨hr, hrs⟩ := List.pairwise_cons.mp hraws
    refine .cons (fun b' hb' => ?_) (ih hrs)
    obtain ⟨i, hi, rfl⟩ := List.getElem_of_mem hb'
    have hget := List.forall₂_iff_get.mp hbs
    obtain ⟨o', -, ho'⟩ := bind_eq_ok_iff.mp (hget.2 i (hget.1 ▸ hi) hi)
    obtain ⟨o, -, ho⟩ := bind_eq_ok_iff.mp hb
    have hle := hr _ (List.get_mem rs ⟨i, hget.1 ▸ hi⟩)
    rw [← Except.ok.inj ho]
    change (bs.get ⟨i, hi⟩).contentRange.start.line > _
    rw [← Except.ok.inj ho']
    exact Nat.lt_succ_of_le hle

/-- A position in the content of a block is in no other. -/
theorem blockAt?_eq_some (h : create limits uri version content sequenceType = .ok d) {b : Block}
    (hb : b ∈ d.blocks) {p : Position} (hp : b.contentRange.holds p = true) :
    d.blockAt? p = some b := by
  refine find?_eq_some_of_pairwise (pairwise_blocks h) (fun b _ b' _ hlt hb hb' => ?_) hb hp
  rw [Range.holds_iff] at hb hb'
  unfold Position.le at hb hb'
  omega

theorem contentRange_start (hd : create limits uri version content sequenceType = .ok d)
    (hb : b ∈ d.blocks) : b.contentRange.start.character = 0 := by
  obtain ⟨r, -, o, -, rfl⟩ := exists_raw_of_mem_blocks hd hb
  rfl

/-- A range on one line of the content begins in the block. -/
theorem blockAt?_start (hd : create limits uri version content sequenceType = .ok d) (hb : b ∈ d.blocks)
    {r : Range} {n length : Nat} (hr : r.WithinLine n length) (hinside : r.Inside b.contentRange) :
    d.blockAt? r.start = some b := by
  obtain ⟨a, e, rfl, hae, -⟩ := hr
  refine blockAt?_eq_some hd hb ((Range.holds_iff _ _).mpr ⟨hinside.1, ?_⟩)
  exact Position.le_trans (q := ⟨n, e⟩) (Or.inr ⟨rfl, hae⟩) hinside.2

/-- The last line of a range in the content begins in the block. -/
theorem blockAt?_last (hd : create limits uri version content sequenceType = .ok d)
    (hb : b ∈ d.blocks) {r : Range} (hforward : Position.le r.start r.stop)
    (hinside : r.Inside b.contentRange) :
    d.blockAt? ⟨r.stop.line, 0⟩ = some b := by
  have hzero := contentRange_start hd hb
  refine blockAt?_eq_some hd hb ((Range.holds_iff _ _).mpr ?_)
  have hstart := hinside.1
  have hstop := hinside.2
  unfold Position.le at *
  simp only
  omega

end Document
end TalkDeck
