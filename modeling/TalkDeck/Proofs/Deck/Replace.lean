import TalkDeck.Proofs.Deck.Raws

/-
Other lines in the place of a block's content.

Lines that open or close neither code nor a slide can stand for the content of a block: the block
then has these lines, and the other blocks are as before but for their place (`exists_replaced_raws`).
So a deck with another content in a block can be read, and the block that opens at the same line is
read from the new lines (`exists_replace`).
-/

namespace TalkDeck

/-- A line that opens or closes neither code nor a slide. -/
def Line.Inert (l : Line) : Prop := l.isFence = false ∧ l.isDelimiter = false

namespace Block

theorem advance_inert {l : Line} (h : l.Inert) (n : Nat) (inCode : Bool) (first : Nat)
    (content : List Line) :
    advance n (inCode, some (first, content)) l = ([], (inCode, some (first, l :: content))) := by
  have hclose : l.isFenceClose = false := by
    rw [Bool.eq_false_iff]
    intro hclose
    have hfence := h.1
    rw [isFence_of_isFenceClose hclose] at hfence
    cases hfence
  rw [advance, if_neg (by simp [h.1]), if_neg (by simp [h.2]), enter, hclose]
  rfl

/-- Inert lines lengthen the open block. -/
theorem rawsFrom_inert {xs : List Line} (h : ∀ l ∈ xs, l.Inert) (n : Nat) (inCode : Bool)
    (first : Nat) (content ys : List Line) :
    rawsFrom n (inCode, some (first, content)) (xs ++ ys) =
      rawsFrom (n + xs.length) (inCode, some (first, xs.reverse ++ content)) ys := by
  induction xs generalizing n content with
  | nil => rfl
  | cons l xs ih =>
    rw [List.cons_append, rawsFrom, advance_inert (h l List.mem_cons_self), List.nil_append,
      ih fun m hm => h m (List.mem_cons_of_mem l hm)]
    simp only [List.length_cons, List.reverse_cons, List.append_assoc, List.singleton_append,
      Nat.add_assoc, Nat.add_comm 1]

/-- What ends an open block: a closing fence, or the end of the slide, which leaves it unclosed. -/
inductive Finishes (inCode : Bool) : Bool → List Line → Prop where
  | fence {l : Line} {ls : List Line} (h : l.isFenceClose = true) : Finishes inCode false (l :: ls)
  | slide {l : Line} {ls : List Line} (hfence : l.isFence = false) (hcode : inCode = false)
    (h : l.isDelimiter = true) : Finishes inCode true (l :: ls)
  | deck : Finishes inCode true []

theorem rawsFrom_finishes {inCode unclosed : Bool} {ls : List Line}
    (h : Finishes inCode unclosed ls) :
    ∃ inCode', ∀ n first content, ∃ last, rawsFrom n (inCode, some (first, content)) ls =
      ⟨first, last, content.reverse, unclosed⟩ :: rawsFrom (n + 1) (inCode', none) ls.tail := by
  cases h with
  | fence h =>
    refine ⟨!inCode, fun n first content => ⟨n, ?_⟩⟩
    rw [rawsFrom, advance, if_pos (isFence_of_isFenceClose h), enter, if_pos h]
    rfl
  | slide hfence hcode h =>
    refine ⟨inCode, fun n first content => ⟨n - 1, ?_⟩⟩
    rw [rawsFrom, advance, if_neg (by simp [hfence]), if_pos (by simp [hcode, h])]
    rfl
  | deck => exact ⟨inCode, fun n first content => ⟨n - 1, rfl⟩⟩

/-- The content of an open block is kept. -/
theorem prefix_of_open {n first : Nat} {s : State} {content ls : List Line} {r : Raw}
    (hfirst : first < n) (hs : s.2 = some (first, content)) (hr : r ∈ rawsFrom n s ls)
    (hopen : r.first = first) : content.reverse <+: r.content := by
  induction ls generalizing n s content with
  | nil =>
    rw [rawsFrom, hs] at hr
    obtain rfl := List.mem_singleton.mp hr
    exact List.prefix_rfl
  | cons l ls ih =>
    rw [rawsFrom, List.mem_append] at hr
    rcases advance_cases n s l with ⟨-, hnone, -⟩ | ⟨first', content', hs', hnone, last, unclosed, hone⟩ |
      ⟨first', content', hs', hnil, hlonger⟩
    · rw [hs] at hnone
      cases hnone
    · rw [hs] at hs'
      cases hs'
      rcases hr with hr | hr
      · rw [hone] at hr
        obtain rfl := List.mem_singleton.mp hr
        exact List.prefix_rfl
      · rcases first_of_mem_rawsFrom hr with ⟨content', hr'⟩ | hle
        · rw [hnone] at hr'
          cases hr'
        · omega
    · rw [hs] at hs'
      cases hs'
      rw [hnil] at hr
      have hlonger' := ih (Nat.lt_succ_of_lt hfirst) hlonger (hr.resolve_left List.not_mem_nil)
      rw [List.reverse_cons] at hlonger'
      exact (List.prefix_append _ _).trans hlonger'

theorem finishes_of_mem_advance {n first : Nat} {inCode : Bool} {content : List Line} {l : Line}
    {r : Raw} (hr : r ∈ (advance n (inCode, some (first, content)) l).1) (ls : List Line) :
    r.content = content.reverse ∧ Finishes inCode r.unclosed (l :: ls) := by
  rw [advance] at hr
  split at hr
  · simp only [enter] at hr
    split at hr
    case isTrue hclose =>
      obtain rfl := List.mem_singleton.mp hr
      exact ⟨rfl, .fence hclose⟩
    case isFalse => cases hr
  case isFalse hfence =>
    split at hr
    case isTrue hdelimiter =>
      obtain rfl := List.mem_singleton.mp hr
      simp only [Bool.and_eq_true, Bool.not_eq_true'] at hdelimiter
      exact ⟨rfl, .slide (by simpa using hfence) hdelimiter.1 hdelimiter.2⟩
    case isFalse =>
      simp only [enter] at hr
      split at hr
      case isTrue hclose => exact absurd (isFence_of_isFenceClose hclose) hfence
      case isFalse => cases hr

/-- An open block with inert lines goes on up to what ends it. -/
theorem exists_rest_of_open {n first : Nat} {inCode : Bool} {content ls : List Line} {r : Raw}
    (hfirst : first < n) (hr : r ∈ rawsFrom n (inCode, some (first, content)) ls)
    (hopen : r.first = first) (hinert : ∀ l ∈ r.content, l.Inert) :
    ∃ xs ys, ls = xs ++ ys ∧ r.content = content.reverse ++ xs ∧ Finishes inCode r.unclosed ys := by
  induction ls generalizing n content with
  | nil =>
    obtain rfl := List.mem_singleton.mp hr
    exact ⟨[], [], rfl, (List.append_nil _).symm, .deck⟩
  | cons l ls ih =>
    have hfirst' : first < n + 1 := Nat.lt_succ_of_lt hfirst
    by_cases hinert' : l.Inert
    · rw [rawsFrom, advance_inert hinert', List.nil_append] at hr
      obtain ⟨xs, ys, rfl, hcontent, hfinishes⟩ := ih hfirst' hr
      refine ⟨l :: xs, ys, rfl, ?_, hfinishes⟩
      rw [hcontent, List.reverse_cons, List.append_assoc]
      rfl
    · -- A line that is not inert ends the block: it is not in the content.
      rw [rawsFrom, List.mem_append] at hr
      rcases advance_cases n (inCode, some (first, content)) l with ⟨-, hnone, -⟩ |
        ⟨first', content', hs, hnone, last, unclosed, hone⟩ | ⟨first', content', hs, hnil, hlonger⟩
      · cases hnone
      · cases hs
        rcases hr with hr | hr
        · obtain ⟨hcontent, hfinishes⟩ := finishes_of_mem_advance hr ls
          exact ⟨[], l :: ls, rfl, by rw [hcontent, List.append_nil], hfinishes⟩
        · rcases first_of_mem_rawsFrom hr with ⟨content', hr'⟩ | hle
          · rw [hnone] at hr'
            cases hr'
          · omega
      · cases hs
        rw [hnil] at hr
        have hprefix := prefix_of_open hfirst' hlonger (hr.resolve_left List.not_mem_nil) hopen
        have hsubset := hprefix.subset
        refine absurd (hinert l (hsubset ?_)) hinert'
        simp

/-- The state after some lines, and the blocks that end in them. -/
def run (n : Nat) (s : State) : List Line → List Raw × State
  | [] => ([], s)
  | l :: ls =>
    ((advance n s l).1 ++ (run (n + 1) (advance n s l).2 ls).1, (run (n + 1) (advance n s l).2 ls).2)

theorem rawsFrom_append (n : Nat) (s : State) (xs ys : List Line) :
    rawsFrom n s (xs ++ ys) =
      (run n s xs).1 ++ rawsFrom (n + xs.length) (run n s xs).2 ys := by
  induction xs generalizing n s with
  | nil => rfl
  | cons l xs ih =>
    rw [List.cons_append, rawsFrom, ih, run, List.append_assoc, List.length_cons, Nat.add_assoc,
      Nat.add_comm 1]

/-- What ends at line `n` opened above it. -/
theorem lt_of_mem_advance {n : Nat} {s : State} {l : Line} {r : Raw} (hs : s.Counts n)
    (hr : r ∈ (advance n s l).1) : r.first < n := by
  obtain ⟨content, hblock⟩ := first_of_mem_advance hr
  have hcount : r.first + 1 + content.length = n := hs (r.first, content) hblock
  omega

/-- Where a block with inert lines stands: the lines up to its fence, its content, and what ends
it. -/
theorem exists_split_of_mem {n : Nat} {s : State} {ls : List Line} {r : Raw} (hs : s.Counts n)
    (hr : r ∈ rawsFrom n s ls) (hfirst : n ≤ r.first) (hinert : ∀ l ∈ r.content, l.Inert) :
    ∃ xs ys inCode, ls = xs ++ (r.content ++ ys) ∧ n + xs.length = r.first + 1 ∧
      (run n s xs).2 = (inCode, some (r.first, [])) ∧ Finishes inCode r.unclosed ys := by
  induction ls generalizing n s with
  | nil =>
    rw [rawsFrom] at hr
    cases hblock : s.2 with
    | none =>
      rw [hblock] at hr
      cases hr
    | some b =>
      have hcount := hs b hblock
      rw [hblock] at hr
      obtain rfl := List.mem_singleton.mp hr
      change n ≤ b.1 at hfirst
      omega
  | cons l ls ih =>
    have hrest : r ∈ rawsFrom (n + 1) (advance n s l).2 ls := by
      rw [rawsFrom, List.mem_append] at hr
      exact hr.resolve_left fun hr => absurd (lt_of_mem_advance hs hr) (Nat.not_lt.mpr hfirst)
    by_cases hn : r.first = n
    · -- The block opens here.
      obtain ⟨content, hopen⟩ := (first_of_mem_rawsFrom hrest).resolve_right (by omega)
      have hcount : r.first + 1 + content.length = n + 1 := hs.advance l (r.first, content) hopen
      obtain rfl : content = [] := List.eq_nil_of_length_eq_zero (by omega)
      rcases hstate : (advance n s l).2 with ⟨inCode, block⟩
      obtain rfl : block = some (r.first, []) := by rw [← hopen, hstate]
      rw [hstate] at hrest
      obtain ⟨xs, ys, rfl, hcontent, hfinishes⟩ :=
        exists_rest_of_open (by omega) hrest rfl hinert
      rw [List.reverse_nil, List.nil_append] at hcontent
      exact ⟨[l], ys, inCode, by rw [hcontent]; rfl, by simp [hn], hstate, hfinishes⟩
    · obtain ⟨xs, ys, inCode, rfl, hlength, hrun, hfinishes⟩ := ih (hs.advance l) hrest (by omega)
      refine ⟨l :: xs, ys, inCode, rfl, ?_, hrun, hfinishes⟩
      rw [List.length_cons]
      omega

/-- States that differ in line numbers only. -/
def State.Agree (s t : State) : Prop := s.1 = t.1 ∧ s.2.map (·.2) = t.2.map (·.2)

theorem State.Agree.advance {s t : State} (h : s.Agree t) (n m : Nat) (l : Line) :
    (Block.advance n s l).1.map (·.content) = (Block.advance m t l).1.map (·.content) ∧
      State.Agree (Block.advance n s l).2 (Block.advance m t l).2 := by
  obtain ⟨inCode, block⟩ := s
  obtain ⟨inCode', block'⟩ := t
  obtain ⟨hcode, hblock⟩ := h
  obtain rfl : inCode = inCode' := hcode
  have henter : (enter n block l).1.map (·.content) = (enter m block' l).1.map (·.content) ∧
      (enter n block l).2.map (·.2) = (enter m block' l).2.map (·.2) := by
    cases block with
    | none =>
      obtain rfl : block' = none := Option.map_eq_none_iff.mp hblock.symm
      refine ⟨rfl, ?_⟩
      simp only [enter]
      split <;> rfl
    | some b =>
      obtain ⟨b', rfl, hcontent⟩ := Option.map_eq_some_iff.mp hblock.symm
      obtain ⟨first, content⟩ := b
      obtain ⟨first', content'⟩ := b'
      obtain rfl : content' = content := hcontent
      simp only [enter]
      split
      · exact ⟨rfl, rfl⟩
      · exact ⟨rfl, rfl⟩
  rw [Block.advance, Block.advance]
  split
  · exact ⟨henter.1, rfl, henter.2⟩
  · split
    · refine ⟨?_, rfl, rfl⟩
      cases block with
      | none =>
        obtain rfl : block' = none := Option.map_eq_none_iff.mp hblock.symm
        rfl
      | some b =>
        obtain ⟨b', rfl, hcontent⟩ := Option.map_eq_some_iff.mp hblock.symm
        simp only [scan, List.map_cons, List.map_nil, hcontent]
    · exact ⟨henter.1, rfl, henter.2⟩

/-- What the blocks hold does not hang on where they stand. -/
theorem map_content_rawsFrom {s t : State} (h : s.Agree t) (n m : Nat) (ls : List Line) :
    (rawsFrom n s ls).map (·.content) = (rawsFrom m t ls).map (·.content) := by
  induction ls generalizing n m s t with
  | nil =>
    obtain ⟨-, hblock⟩ := h
    rw [rawsFrom, rawsFrom]
    cases hs : s.2 with
    | none =>
      rw [hs] at hblock
      rw [Option.map_eq_none_iff.mp hblock.symm]
      rfl
    | some b =>
      rw [hs] at hblock
      obtain ⟨b', hb', hcontent⟩ := Option.map_eq_some_iff.mp hblock.symm
      simp only [hb', scan, List.map_cons, List.map_nil, hcontent]
  | cons l ls ih =>
    obtain ⟨hhere, hnext⟩ := h.advance n m l
    rw [rawsFrom, rawsFrom, List.map_append, List.map_append, hhere, ih hnext]

end Block

namespace Document

variable {limits : Limits} {uri content sequenceType : String} {version : Int} {d : Document}

/-! ## Front matter above a block -/

theorem delimiterFrom_eq_none_iff {n : Nat} {ls : List Line} :
    delimiterFrom n ls = none ↔ ∀ l ∈ ls, l.isDelimiter = false := by
  induction ls generalizing n with
  | nil => simp [delimiterFrom]
  | cons l ls ih =>
    rw [delimiterFrom, List.forall_mem_cons]
    by_cases hl : l.isDelimiter = true
    · simp [hl]
    · rw [if_neg hl, ih, Bool.not_eq_true] at *
      simp [hl]

/-- Lines below the front matter that are no delimiters can stand for others. -/
theorem frontmatterOf_replace {before old new after : List Line}
    (hstart : bodyStart (frontmatterOf (before ++ (old ++ after))) ≤ before.length)
    (hbefore : before ≠ []) (hnew : ∀ l ∈ new, l.Inert) :
    frontmatterOf (before ++ (new ++ after)) = frontmatterOf (before ++ (old ++ after)) := by
  obtain ⟨first, before, rfl⟩ := List.exists_cons_of_ne_nil hbefore
  rw [List.cons_append, frontmatterOf] at hstart ⊢
  rw [List.cons_append, frontmatterOf]
  by_cases hfirst : first.isDelimiter = true
  · rw [if_pos hfirst] at hstart ⊢
    rw [if_pos hfirst]
    cases hd : delimiterFrom 1 before with
    | some p => rw [delimiterFrom_append _ hd, delimiterFrom_append _ hd]
    | none =>
      have hnone : delimiterFrom 1 (before ++ (old ++ after)) = none := by
        cases hall : delimiterFrom 1 (before ++ (old ++ after)) with
        | none => rfl
        | some p =>
          -- The closing delimiter would stand among the lines above.
          obtain ⟨i, l, hi, hget, hl, -⟩ := delimiterFrom_eq_some hall
          rw [hall] at hstart
          have hlt : i < before.length := by
            simp only [Option.map_some, bodyStart, List.length_cons] at hstart
            omega
          rw [List.getElem?_append_left hlt] at hget
          rw [delimiterFrom_eq_none_iff.mp hd l (List.mem_of_getElem? hget)] at hl
          cases hl
      have hnone' : delimiterFrom 1 (before ++ (new ++ after)) = none := by
        rw [delimiterFrom_eq_none_iff] at hnone ⊢
        intro l hl
        rcases List.mem_append.mp hl with hl | hl
        · exact hnone l (List.mem_append_left _ hl)
        · rcases List.mem_append.mp hl with hl | hl
          · exact (hnew l hl).2
          · exact hnone l (List.mem_append_right _ (List.mem_append_right _ hl))
      rw [hnone, hnone']
  · rw [if_neg hfirst, if_neg hfirst]

/-! ## Another content for a block -/

/-- The blocks of a deck with any inert lines in the place of the content of one: the blocks above it
are the same, and those below are found in the same lines. -/
theorem exists_raws_around {all : List Line} {r : Block.Raw} (hr : r ∈ raws all)
    (hinert : ∀ l ∈ r.content, l.Inert) :
    ∃ before after rs s ls, all = before ++ (r.content ++ after) ∧ before.length = r.first + 1 ∧
      ∀ new : List Line, (∀ l ∈ new, l.Inert) → ∃ n last, raws (before ++ (new ++ after)) =
        rs ++ ⟨r.first, last, new, r.unclosed⟩ :: Block.rawsFrom n s ls := by
  have hcounts : Block.State.Counts (false, none) (bodyStart (frontmatterOf all)) := by
    intro b hb
    cases hb
  have hfirst : bodyStart (frontmatterOf all) ≤ r.first := by
    rcases Block.first_of_mem_rawsFrom hr with ⟨content, h⟩ | h
    · cases h
    · exact h
  obtain ⟨xs, after, inCode, hsplit, hlength, hrun, hfinishes⟩ :=
    Block.exists_split_of_mem hcounts hr hfirst hinert
  obtain ⟨inCode', hrest⟩ := Block.rawsFrom_finishes hfinishes
  have htop : (all.take (bodyStart (frontmatterOf all))).length = bodyStart (frontmatterOf all) :=
    List.length_take_of_le (bodyStart_le all)
  have hall : all = (all.take (bodyStart (frontmatterOf all)) ++ xs) ++ (r.content ++ after) := by
    rw [List.append_assoc, ← hsplit, List.take_append_drop]
  refine ⟨_, after, (Block.run (bodyStart (frontmatterOf all)) (false, none) xs).1, (inCode', none),
    after.tail, hall, by rw [List.length_append, htop, hlength], fun new hnew => ?_⟩
  have hfront : frontmatterOf
      ((all.take (bodyStart (frontmatterOf all)) ++ xs) ++ (new ++ after)) = frontmatterOf all := by
    conv => rhs; rw [hall]
    refine frontmatterOf_replace ?_ ?_ hnew
    · rw [← hall, List.length_append, htop]
      exact Nat.le_add_right _ _
    · intro hnil
      have hlength' := congrArg List.length hnil
      rw [List.length_append, htop, List.length_nil] at hlength'
      omega
  obtain ⟨last, hlast⟩ := hrest
    (bodyStart (frontmatterOf all) + xs.length + new.length) r.first (new.reverse ++ [])
  refine ⟨bodyStart (frontmatterOf all) + xs.length + new.length + 1, last, ?_⟩
  rw [raws, hfront, List.append_assoc, List.drop_left' htop, Block.rawsFrom_append, hrun,
    Block.rawsFrom_inert hnew, hlast, List.append_nil, List.reverse_reverse]

/-- Where a block with inert lines stands in a deck, and what becomes of the blocks when other inert
lines stand in the place of its content. -/
theorem exists_replaced_raws {all : List Line} {r : Block.Raw} (hr : r ∈ raws all)
    (hinert : ∀ l ∈ r.content, l.Inert) :
    ∃ before after, all = before ++ (r.content ++ after) ∧ before.length = r.first + 1 ∧
      ∀ new : List Line, (∀ l ∈ new, l.Inert) →
        ∃ r' ∈ raws (before ++ (new ++ after)), r'.first = r.first ∧ r'.content = new ∧
          ∀ q ∈ raws (before ++ (new ++ after)), q ≠ r' → ∃ q' ∈ raws all, q'.content = q.content := by
  obtain ⟨before, after, rs, s, ls, hall, hlength, hraws⟩ := exists_raws_around hr hinert
  refine ⟨before, after, hall, hlength, fun new hnew => ?_⟩
  obtain ⟨n, last, hnew⟩ := hraws new hnew
  obtain ⟨m, last', hold⟩ := hraws r.content hinert
  rw [← hall] at hold
  rw [hnew]
  refine ⟨_, List.mem_append_right _ List.mem_cons_self, rfl, rfl, fun q hq hne => ?_⟩
  rcases List.mem_append.mp hq with hq | hq
  · exact ⟨q, by rw [hold]; exact List.mem_append_left _ hq, rfl⟩
  · have hq' := (List.mem_cons.mp hq).resolve_left hne
    have hcontent : q.content ∈ (Block.rawsFrom m s ls).map (·.content) := by
      rw [Block.map_content_rawsFrom ⟨rfl, rfl⟩ m n]
      exact List.mem_map_of_mem hq'
    obtain ⟨q', hq', hcontent⟩ := List.mem_map.mp hcontent
    exact ⟨q', by rw [hold]; exact List.mem_append_right _ (List.mem_cons_of_mem _ hq'), hcontent⟩

/-- Lines without line ends are the lines of their text, also with others among them. -/
theorem lines_unlines_replace {before old new after : List Line} (hne : before ≠ [])
    (hold : ∀ l ∈ before ++ (old ++ after), '\n' ∉ l) (hnew : ∀ l ∈ new, '\n' ∉ l) :
    Text.lines (String.ofList (Text.unlines (before ++ (new ++ after)))).toList =
      before ++ (new ++ after) := by
  rw [String.toList_ofList, Text.lines_unlines (by simp [hne])]
  intro l hl
  rcases List.mem_append.mp hl with hl | hl
  · exact hold l (List.mem_append_left _ hl)
  · rcases List.mem_append.mp hl with hl | hl
    · exact hnew l hl
    · exact hold l (List.mem_append_right _ (List.mem_append_right _ hl))

theorem mem_blocks_of_read (h : create limits uri version content sequenceType = .ok d) {r : Block.Raw}
    (hr : r ∈ raws d.lines) {o : Fragment.Outcome}
    (hread : Fragment.read limits (Text.unlines r.content) = .ok o) :
    Block.ofOutcome sequenceType r o ∈ d.blocks := by
  obtain ⟨b, hb, hof⟩ := exists_block_of_mem_raws h hr
  rw [Block.ofRaw, hread] at hof
  rwa [← Except.ok.inj hof] at hb

/-- Where a block with inert lines stands in its deck, and what the deck is read as when other inert
lines that can be read stand in the place of its content. -/
theorem exists_replace (h : create limits uri version content sequenceType = .ok d) {r : Block.Raw}
    (hr : r ∈ raws d.lines) (hinert : ∀ l ∈ r.content, l.Inert) :
    ∃ before after, d.lines = before ++ (r.content ++ after) ∧ before.length = r.first + 1 ∧
      ∀ (new : List Line) (o : Fragment.Outcome), (∀ l ∈ new, l.Inert) → (∀ l ∈ new, '\n' ∉ l) →
        Fragment.read limits (Text.unlines new) = .ok o →
        ∃ d', create limits uri version (String.ofList (Text.unlines (before ++ (new ++ after))))
            sequenceType = .ok d' ∧
          ∃ r' : Block.Raw, r'.first = r.first ∧ r'.content = new ∧
            Block.ofOutcome sequenceType r' o ∈ d'.blocks := by
  obtain ⟨before, after, hlines, hlength, hnew⟩ := exists_replaced_raws hr hinert
  refine ⟨before, after, hlines, hlength, fun new o hinert' hnewline hread => ?_⟩
  obtain ⟨r', hr', hfirst, hcontent, hothers⟩ := hnew new hinert'
  have hbefore : before ≠ [] := by
    intro hnil
    rw [hnil, List.length_nil] at hlength
    omega
  have hold : ∀ l ∈ before ++ (r.content ++ after), '\n' ∉ l := fun l hl =>
    Text.not_mem_of_mem_splitAt (hlines ▸ hl)
  have hlines' := lines_unlines_replace hbefore hold hnewline
  have hreadable : ∀ q ∈ raws (before ++ (new ++ after)),
      ∃ b, Block.ofRaw limits sequenceType q = .ok b := by
    intro q hq
    by_cases heq : q = r'
    · rw [heq, Block.ofRaw, hcontent, hread]
      exact ⟨_, rfl⟩
    · obtain ⟨q', hq', hsame⟩ := hothers q hq heq
      obtain ⟨b, -, hb⟩ := exists_block_of_mem_raws h hq'
      obtain ⟨o', ho', -⟩ := bind_eq_ok_iff.mp hb
      rw [hsame] at ho'
      rw [Block.ofRaw, ho']
      exact ⟨_, rfl⟩
  rw [← hlines'] at hreadable
  obtain ⟨d', hd'⟩ := exists_create uri version hreadable
  refine ⟨d', hd', r', hfirst, hcontent, ?_⟩
  have hmem : r' ∈ raws d'.lines := by
    rw [lines, (create_eq_ok_iff.mp hd').2.2.1, hlines']
    exact hr'
  exact mem_blocks_of_read hd' hmem (by rw [hcontent]; exact hread)

end Document
end TalkDeck
