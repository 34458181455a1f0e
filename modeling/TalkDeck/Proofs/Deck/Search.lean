import Mathlib.Data.Nat.Find
import TalkDeck.Proofs.Deck.Raws

/-
Blocks are found by one search after the other.

`Block.scan` reads one line after the other and carries the open block with it.  `Block.Searched` says
what it finds and knows no open block: the next block opens at the first action fence, ends at the
first closing fence below it, and the search goes on below that; where no closing fence is left, the
block has all the lines that are left.  Both find the same blocks in every span of lines
(`Block.searched_iff`), so what is to be known of the blocks of a span, and of each of its action
fences, follows by induction on the searches.
-/

namespace TalkDeck

/-- A bare fence opens no block. -/
theorem Line.isActionFence_of_isFenceClose {l : Line} (h : l.isFenceClose = true) :
    l.isActionFence = false := by
  rw [isFenceClose, Option.any_eq_true] at h
  obtain ⟨rest, hrest, hblank⟩ := h
  rw [Bool.eq_false_iff, isActionFence, Ne, Option.any_eq_true]
  rintro ⟨rest', hrest', -⟩
  have hlines := Text.strip?_eq_some_iff.mp hrest'
  rw [Text.strip?_eq_some_iff.mp hrest, List.append_assoc] at hlines
  obtain rfl := List.append_cancel_left hlines
  cases hblank

namespace Block

/-! ## Lines by number -/

/-- The lines from number `a` up to number `b`. -/
def slice (all : List Line) (a b : Nat) : List Line := (all.drop a).take (b - a)

/-- Line `m` is the first that passes a test, from line `n` on and before line `beyond`. -/
structure IsFirst (all : List Line) (p : Line → Bool) (n beyond m : Nat) : Prop where
  le : n ≤ m
  lt : m < beyond
  passes : p (all.getD m []) = true
  first : ∀ k, n ≤ k → k < m → p (all.getD k []) = false

variable {all : List Line} {n m beyond : Nat}

theorem isFirst_or_none (all : List Line) (p : Line → Bool) (n beyond : Nat) :
    (∃ m, IsFirst all p n beyond m) ∨ ∀ m, n ≤ m → m < beyond → p (all.getD m []) = false := by
  by_cases h : ∃ m, n ≤ m ∧ m < beyond ∧ p (all.getD m []) = true
  · left
    obtain ⟨hle, hlt, hp⟩ := Nat.find_spec h
    refine ⟨Nat.find h, hle, hlt, hp, fun k hk hkm => ?_⟩
    rw [Bool.eq_false_iff]
    exact fun hpk => Nat.find_min h hkm ⟨hk, Nat.lt_trans hkm hlt, hpk⟩
  · right
    intro m hle hlt
    rw [Bool.eq_false_iff]
    exact fun hp => h ⟨m, hle, hlt, hp⟩

theorem IsFirst.le_of_passes {p : Line → Bool} {k : Nat} (h : IsFirst all p n beyond m) (hle : n ≤ k)
    (hp : p (all.getD k []) = true) : m ≤ k := by
  by_contra hlt
  rw [h.first k hle (Nat.not_le.mp hlt)] at hp
  cases hp

theorem length_slice (h : beyond ≤ all.length) : (slice all n beyond).length = beyond - n := by
  rw [slice, List.length_take, List.length_drop]
  omega

theorem slice_split (hle : n ≤ m) (hlt : m < beyond) (hsize : beyond ≤ all.length) :
    slice all n beyond = slice all n m ++ all.getD m [] :: slice all (m + 1) beyond := by
  obtain ⟨i, rfl⟩ := Nat.exists_eq_add_of_le hle
  obtain ⟨j, rfl⟩ := Nat.exists_eq_add_of_lt hlt
  have hm : n + i < all.length := by omega
  have hlength : n + i + j + 1 - n = i + (j + 1) := by omega
  have hbefore : n + i - n = i := by omega
  have hafter : n + i + j + 1 - (n + i + 1) = j := by omega
  rw [slice, slice, slice, hlength, hbefore, hafter, List.take_add, List.drop_drop,
    List.drop_eq_getElem_cons hm, List.take_succ_cons, List.getD_eq_getElem?_getD,
    List.getElem?_eq_getElem hm, Option.getD_some]

theorem forall_mem_slice {p : Line → Bool} (hsize : beyond ≤ all.length)
    (h : ∀ m, n ≤ m → m < beyond → p (all.getD m []) = false) :
    ∀ l ∈ slice all n beyond, p l = false := by
  intro l hl
  obtain ⟨i, hi, rfl⟩ := List.getElem_of_mem hl
  have hlt : i < beyond - n := length_slice hsize ▸ hi
  have hline := h (n + i) (Nat.le_add_right n i) (by omega)
  rw [List.getD_eq_getElem?_getD, List.getElem?_eq_getElem (show n + i < all.length by omega),
    Option.getD_some] at hline
  simpa only [slice, List.getElem_take, List.getElem_drop] using hline

/-! ## One search -/

/-- Lines that open no block are passed over. -/
theorem scan_before {before : List Line} (h : ∀ l ∈ before, l.isActionFence = false) (n : Nat)
    (ls : List Line) : scan n none (before ++ ls) = scan (n + before.length) none ls := by
  induction before generalizing n with
  | nil => rfl
  | cons l before ih =>
    obtain ⟨hl, hbefore⟩ := List.forall_mem_cons.mp h
    rw [List.cons_append, scan, hl, if_neg Bool.false_ne_true, ih hbefore, List.length_cons,
      Nat.add_assoc, Nat.add_comm 1]

/-- Lines that close no block lengthen the open one. -/
theorem scan_content {more : List Line} (h : ∀ l ∈ more, l.isFenceClose = false) (n first : Nat)
    (content ls : List Line) :
    scan n (some (first, content)) (more ++ ls) =
      scan (n + more.length) (some (first, more.reverse ++ content)) ls := by
  induction more generalizing n content with
  | nil => rfl
  | cons l more ih =>
    obtain ⟨hl, hmore⟩ := List.forall_mem_cons.mp h
    rw [List.cons_append, scan, hl, if_neg Bool.false_ne_true, ih hmore, List.length_cons,
      Nat.add_assoc, Nat.add_comm 1, List.reverse_cons, List.append_assoc, List.singleton_append]

variable {opens closes : Nat}

theorem ofSpan_of_none (hsize : beyond ≤ all.length)
    (h : ∀ m, n ≤ m → m < beyond → (all.getD m []).isActionFence = false) :
    ofSpan all (n, beyond) = [] := by
  have hscan := scan_before (forall_mem_slice hsize h) n []
  rw [List.append_nil] at hscan
  exact hscan

/-- From a block's fence on the scan goes through the lines below it. -/
theorem ofSpan_of_opening (hsize : beyond ≤ all.length)
    (h : IsFirst all Line.isActionFence n beyond opens) :
    ofSpan all (n, beyond) = scan (opens + 1) (some (opens, [])) (slice all (opens + 1) beyond) := by
  have hlt := h.lt
  have hbefore := forall_mem_slice (show opens ≤ all.length by omega) h.first
  show scan n none (slice all n beyond) = _
  rw [slice_split h.le h.lt hsize, scan_before hbefore, length_slice (by omega),
    Nat.add_sub_cancel' h.le, scan, h.passes, if_pos rfl]

theorem scan_of_closing (hsize : beyond ≤ all.length)
    (h : IsFirst all Line.isFenceClose (opens + 1) beyond closes) :
    scan (opens + 1) (some (opens, [])) (slice all (opens + 1) beyond) =
      ⟨opens, closes, slice all (opens + 1) closes, false⟩ :: ofSpan all (closes + 1, beyond) := by
  have hlt := h.lt
  have hcontent := forall_mem_slice (show closes ≤ all.length by omega) h.first
  rw [slice_split h.le h.lt hsize, scan_content hcontent, length_slice (by omega),
    Nat.add_sub_cancel' h.le, scan, h.passes, if_pos rfl, List.append_nil, List.reverse_reverse]
  rfl

theorem scan_of_open (hsize : beyond ≤ all.length) (hopens : opens < beyond)
    (h : ∀ m, opens < m → m < beyond → (all.getD m []).isFenceClose = false) :
    scan (opens + 1) (some (opens, [])) (slice all (opens + 1) beyond) =
      [⟨opens, beyond - 1, slice all (opens + 1) beyond, true⟩] := by
  have hscan := scan_content (forall_mem_slice hsize h) (opens + 1) opens [] []
  rw [List.append_nil, length_slice hsize, Nat.add_sub_cancel' (Nat.succ_le_of_lt hopens),
    List.append_nil] at hscan
  rw [hscan, scan, List.reverse_reverse]

/-! ## One search after the other -/

/-- The blocks found from line `n` on and before line `beyond`, each of them read from the lines
between its fences. -/
inductive Searched (limits : Limits) (sequenceType : String) (all : List Line) (beyond : Nat) :
    Nat → List Block → Prop where
  | done {n : Nat}
      (opening : ∀ m, n ≤ m → m < beyond → (all.getD m []).isActionFence = false) :
      Searched limits sequenceType all beyond n []
  | closed {n opens closes : Nat} {b : Block} {bs : List Block}
      (opening : IsFirst all Line.isActionFence n beyond opens)
      (closing : IsFirst all Line.isFenceClose (opens + 1) beyond closes)
      (reading : ofRaw limits sequenceType ⟨opens, closes, slice all (opens + 1) closes, false⟩ = .ok b)
      (resumed : Searched limits sequenceType all beyond (closes + 1) bs) :
      Searched limits sequenceType all beyond n (b :: bs)
  | unclosed {n opens : Nat} {b : Block}
      (opening : IsFirst all Line.isActionFence n beyond opens)
      (closing : ∀ m, opens < m → m < beyond → (all.getD m []).isFenceClose = false)
      (reading : ofRaw limits sequenceType ⟨opens, beyond - 1, slice all (opens + 1) beyond, true⟩ =
        .ok b) :
      Searched limits sequenceType all beyond n [b]

variable {limits : Limits} {sequenceType : String} {bs : List Block}

theorem Searched.blocks (hsize : beyond ≤ all.length)
    (h : Searched limits sequenceType all beyond n bs) :
    List.Forall₂ (fun r b => ofRaw limits sequenceType r = .ok b) (ofSpan all (n, beyond)) bs := by
  induction h with
  | done opening =>
    rw [ofSpan_of_none hsize opening]
    exact .nil
  | closed opening closing reading _ ih =>
    rw [ofSpan_of_opening hsize opening, scan_of_closing hsize closing]
    exact .cons reading ih
  | unclosed opening closing reading =>
    rw [ofSpan_of_opening hsize opening, scan_of_open hsize opening.lt closing]
    exact .cons reading .nil

/-- The scan finds what the searches find.  The induction is on the lines that are left: a search
begins below the one before it. -/
theorem searched_of_blocks (hsize : beyond ≤ all.length)
    (h : List.Forall₂ (fun r b => ofRaw limits sequenceType r = .ok b) (ofSpan all (n, beyond)) bs) :
    Searched limits sequenceType all beyond n bs := by
  induction hleft : beyond - n using Nat.strong_induction_on generalizing n bs with
  | _ left ih =>
    rcases isFirst_or_none all Line.isActionFence n beyond with ⟨opens, opening⟩ | opening
    · rw [ofSpan_of_opening hsize opening] at h
      rcases isFirst_or_none all Line.isFenceClose (opens + 1) beyond with ⟨closes, closing⟩ | closing
      · rw [scan_of_closing hsize closing] at h
        obtain ⟨b, bs, hb, hbs, rfl⟩ := List.forall₂_cons_left_iff.mp h
        have hfirst := opening.le
        have hlast := closing.le
        have hlt := closing.lt
        exact .closed opening closing hb (ih _ (by omega) hbs rfl)
      · rw [scan_of_open hsize opening.lt closing] at h
        obtain ⟨b, bs, hb, hbs, rfl⟩ := List.forall₂_cons_left_iff.mp h
        obtain rfl := List.forall₂_nil_left_iff.mp hbs
        exact .unclosed opening closing hb
    · rw [ofSpan_of_none hsize opening] at h
      obtain rfl := List.forall₂_nil_left_iff.mp h
      exact .done opening

theorem searched_iff (hsize : beyond ≤ all.length) :
    Searched limits sequenceType all beyond n bs ↔
      List.Forall₂ (fun r b => ofRaw limits sequenceType r = .ok b) (ofSpan all (n, beyond)) bs :=
  ⟨Searched.blocks hsize, searched_of_blocks hsize⟩

/-! ## What is found -/

/-- The line after the content of a block: its closing fence, or the line after its slide. -/
def contentEnd (b : Block) : Nat := if b.unclosed then b.range.stop.line + 1 else b.range.stop.line

theorem ofRaw_spec {first last : Nat} {content : List Line} {unclosed : Bool} {b : Block}
    (h : ofRaw limits sequenceType ⟨first, last, content, unclosed⟩ = .ok b) :
    b.range.start.line = first ∧ b.range.stop.line = last ∧ b.text = Text.unlines content ∧
      b.unclosed = unclosed := by
  obtain ⟨o, -, h⟩ := bind_eq_ok_iff.mp h
  obtain rfl := Except.ok.inj h
  exact ⟨rfl, rfl, rfl, rfl⟩

theorem contentEnd_of_closed {content : List Line} {b : Block}
    (h : ofRaw limits sequenceType ⟨opens, closes, content, false⟩ = .ok b) :
    b.contentEnd = closes := by
  obtain ⟨-, hlast, -, hflag⟩ := ofRaw_spec h
  rw [contentEnd, hflag, if_neg Bool.false_ne_true, hlast]

theorem contentEnd_of_unclosed {content : List Line} {b : Block} (hopens : opens < beyond)
    (h : ofRaw limits sequenceType ⟨opens, beyond - 1, content, true⟩ = .ok b) :
    b.contentEnd = beyond := by
  obtain ⟨-, hlast, -, hflag⟩ := ofRaw_spec h
  rw [contentEnd, hflag, if_pos rfl, hlast]
  exact Nat.sub_add_cancel (Nat.one_le_of_lt hopens)

/-- A block among the lines before `beyond`.  Its content is all that stands between its fence and
its end, and it is unclosed if no closing fence is left below its own, so that its content goes on
to the last line. -/
structure Stands (b : Block) (all : List Line) (beyond : Nat) : Prop where
  start_le : b.range.start.line ≤ b.range.stop.line
  stop_lt : b.range.stop.line < beyond
  text : b.text = Text.unlines (slice all (b.range.start.line + 1) b.contentEnd)
  unclosed_iff : b.unclosed = true ↔
    ∀ m, b.range.start.line < m → m < beyond → (all.getD m []).isFenceClose = false
  unclosed_end : b.unclosed = true → b.contentEnd = beyond

theorem Stands.contentEnd_le {b : Block} (h : b.Stands all beyond) : b.contentEnd ≤ beyond := by
  have hlt := h.stop_lt
  unfold contentEnd
  split <;> omega

/-- The text of a block gives its lines back. -/
theorem Stands.lines_text {b : Block} (h : b.Stands all beyond) (hsize : beyond ≤ all.length)
    (hnewline : ∀ l ∈ all, '\n' ∉ l) (hsome : b.range.start.line + 1 < b.contentEnd) :
    Text.lines b.text = slice all (b.range.start.line + 1) b.contentEnd := by
  have hlength := length_slice (n := b.range.start.line + 1) (Nat.le_trans h.contentEnd_le hsize)
  rw [h.text]
  refine Text.lines_unlines (List.ne_nil_of_length_pos (by omega)) fun l hl => hnewline l ?_
  exact List.mem_of_mem_drop (List.mem_of_mem_take hl)

theorem stands_closed {b : Block} (closing : IsFirst all Line.isFenceClose (opens + 1) beyond closes)
    (h : ofRaw limits sequenceType ⟨opens, closes, slice all (opens + 1) closes, false⟩ = .ok b) :
    b.Stands all beyond := by
  obtain ⟨hfirst, hlast, htext, hflag⟩ := ofRaw_spec h
  have hle := closing.le
  refine ⟨by omega, hlast ▸ closing.lt, ?_, ?_, fun hopen => ?_⟩
  · rw [htext, hfirst, contentEnd_of_closed h]
  · rw [hflag, hfirst]
    refine iff_of_false Bool.false_ne_true fun hnone => ?_
    have hclose := hnone closes closing.le closing.lt
    rw [closing.passes] at hclose
    cases hclose
  · rw [hflag] at hopen
    cases hopen

theorem stands_unclosed {b : Block} (hopens : opens < beyond)
    (closing : ∀ m, opens < m → m < beyond → (all.getD m []).isFenceClose = false)
    (h : ofRaw limits sequenceType ⟨opens, beyond - 1, slice all (opens + 1) beyond, true⟩ = .ok b) :
    b.Stands all beyond := by
  obtain ⟨hfirst, hlast, htext, hflag⟩ := ofRaw_spec h
  have hend := contentEnd_of_unclosed hopens h
  refine ⟨by omega, by omega, ?_, ?_, fun _ => hend⟩
  · rw [htext, hfirst, hend]
  · rw [hflag, hfirst]
    exact iff_of_true rfl closing

namespace Searched

theorem stands (h : Searched limits sequenceType all beyond n bs) :
    ∀ b ∈ bs, n ≤ b.range.start.line ∧ b.Stands all beyond := by
  induction h with
  | done _ => exact fun _ hb => absurd hb List.not_mem_nil
  | closed opening closing reading _ ih =>
    have hfirst := opening.le
    have hlast := closing.le
    refine List.forall_mem_cons.mpr ⟨⟨?_, stands_closed closing reading⟩, fun b hb => ?_⟩
    · rw [(ofRaw_spec reading).1]
      exact hfirst
    · obtain ⟨hle, hstands⟩ := ih b hb
      exact ⟨by omega, hstands⟩
  | unclosed opening closing reading =>
    refine List.forall_mem_singleton.mpr ⟨?_, stands_unclosed opening.lt closing reading⟩
    rw [(ofRaw_spec reading).1]
    exact opening.le

/-- A block that another follows is closed, and above it. -/
theorem pairwise (h : Searched limits sequenceType all beyond n bs) :
    bs.Pairwise fun b c => b.unclosed = false ∧ b.range.stop.line < c.range.start.line := by
  induction h with
  | done _ => exact .nil
  | closed _ _ reading resumed ih =>
    obtain ⟨-, hlast, -, hflag⟩ := ofRaw_spec reading
    refine .cons (fun c hc => ⟨hflag, ?_⟩) ih
    rw [hlast]
    exact (resumed.stands c hc).1
  | unclosed _ _ _ => exact List.pairwise_singleton _ _

/-- No action fence is lost: it opens a block, or a block has it for content. -/
theorem exists_of_isActionFence (h : Searched limits sequenceType all beyond n bs) (hle : n ≤ m)
    (hlt : m < beyond) (hfence : (all.getD m []).isActionFence = true) :
    ∃ b ∈ bs, m = b.range.start.line ∨ b.range.start.line < m ∧ m < b.contentEnd := by
  induction h with
  | done opening =>
    rw [opening m hle hlt] at hfence
    cases hfence
  | @closed n opens closes b bs opening closing reading _ ih =>
    have hge := opening.le_of_passes hle hfence
    rcases Nat.lt_trichotomy m closes with hbelow | rfl | habove
    · refine ⟨b, List.mem_cons_self, ?_⟩
      rw [(ofRaw_spec reading).1, contentEnd_of_closed reading]
      omega
    · rw [Line.isActionFence_of_isFenceClose closing.passes] at hfence
      cases hfence
    · obtain ⟨c, hc, hcovers⟩ := ih habove
      exact ⟨c, List.mem_cons_of_mem b hc, hcovers⟩
  | @unclosed n opens b opening closing reading =>
    have hge := opening.le_of_passes hle hfence
    refine ⟨b, List.mem_singleton_self b, ?_⟩
    rw [(ofRaw_spec reading).1, contentEnd_of_unclosed opening.lt reading]
    omega

end Searched

end Block

namespace Document

variable {limits : Limits} {all : List Line} {beyond : Nat}

theorem exists_slideOf_iff {sequenceType : String} {index first : Nat} {bs : List Block} :
    (∃ s, slideOf limits sequenceType all index first beyond = .ok s ∧ s.blocks = bs) ↔
      List.Forall₂ (fun r b => Block.ofRaw limits sequenceType r = .ok b)
        (Block.ofSpan all (first, beyond)) bs := by
  constructor
  · rintro ⟨s, hs, rfl⟩
    exact slideOf_blocks (p := (first, beyond)) hs
  · intro hbs
    have hread : ∀ r ∈ Block.ofSpan all (first, beyond),
        ∃ b, Block.ofRaw limits sequenceType r = .ok b := by
      intro r hr
      obtain ⟨i, hi, rfl⟩ := List.getElem_of_mem hr
      obtain ⟨hlength, hget⟩ := List.forall₂_iff_get.mp hbs
      exact ⟨_, hget i hi (hlength ▸ hi)⟩
    obtain ⟨s, hs⟩ := exists_slideOf index (p := (first, beyond)) hread
    have hblocks := mapM_eq_ok_iff.mpr (slideOf_blocks (p := (first, beyond)) hs)
    exact ⟨s, hs, Except.ok.inj (hblocks.symm.trans (mapM_eq_ok_iff.mpr hbs))⟩

/-- The blocks of a span of lines are exactly those found by one search after the other.  Each has
the lines between its fences for its text, and gives them back line by line; only the last can be
unclosed, which it is if no closing fence is left, and then it has all the lines that are left; they
stand one below the other; and every action fence of the span opens a block or stands in the content
of one. -/
theorem slideOf_searched (hsize : beyond ≤ all.length) (sequenceType : String) (index first : Nat) :
    (∀ bs, (∃ s, slideOf limits sequenceType all index first beyond = .ok s ∧ s.blocks = bs) ↔
      Block.Searched limits sequenceType all beyond first bs) ∧
    ∀ bs, Block.Searched limits sequenceType all beyond first bs →
      (∀ b ∈ bs, first ≤ b.range.start.line ∧ b.Stands all beyond ∧
        ((∀ l ∈ all, '\n' ∉ l) → b.range.start.line + 1 < b.contentEnd →
          Text.lines b.text = Block.slice all (b.range.start.line + 1) b.contentEnd)) ∧
      bs.Pairwise (fun b c => b.unclosed = false ∧ b.range.stop.line < c.range.start.line) ∧
      ∀ m, first ≤ m → m < beyond → (all.getD m []).isActionFence = true →
        ∃ b ∈ bs, m = b.range.start.line ∨ b.range.start.line < m ∧ m < b.contentEnd := by
  refine ⟨fun bs => exists_slideOf_iff.trans (Block.searched_iff hsize).symm, fun bs h => ?_⟩
  refine ⟨fun b hb => ?_, h.pairwise, fun m hle hlt hfence => h.exists_of_isActionFence hle hlt hfence⟩
  obtain ⟨hle, hstands⟩ := h.stands b hb
  exact ⟨hle, hstands, fun hnewline hsome => hstands.lines_text hsize hnewline hsome⟩

/-- A block with another action fence in its content, and one that opens on the last line. -/
def nestedFences : List Line :=
  ["# A", "\x60\x60\x60action", "note: |", "\x60\x60\x60action ", "\x60\x60\x60js", "\x60\x60\x60",
    "\x60\x60\x60action"].map String.toList

theorem slideOf_searched_nestedFences :
    7 ≤ nestedFences.length ∧ ∃ bs, Block.Searched .usual "sequence" nestedFences 7 0 bs ∧
      bs.map (fun b => (b.range.start.line, b.range.stop.line, b.unclosed)) =
        [(1, 5, false), (6, 6, true)] ∧
      ∃ b ∈ bs, 3 = b.range.start.line ∨ b.range.start.line < 3 ∧ 3 < b.contentEnd := by
  have hsize : 7 ≤ nestedFences.length := by decide
  obtain ⟨s, hs, hcheck⟩ := exists_eq_ok_of_any (x := slideOf .usual "sequence" nestedFences 0 0 7)
    (p := fun s => s.blocks.map (fun b => (b.range.start.line, b.range.stop.line, b.unclosed)) ==
      [(1, 5, false), (6, 6, true)]) (by decide +kernel)
  obtain ⟨hiff, hfound⟩ := slideOf_searched hsize "sequence" 0 0
  have hsearched := (hiff s.blocks).mp ⟨s, hs, rfl⟩
  exact ⟨hsize, s.blocks, hsearched, eq_of_beq hcheck,
    (hfound s.blocks hsearched).2.2 3 (by decide) (by decide) (by decide)⟩

end Document
end TalkDeck
