import TalkDeck.Proofs.Deck.Leftmost
import TalkDeck.Proofs.Deck.Located

/-
Queries of inline links.

A query is read piece by piece, with the place of the next piece carried along.  What has been read
after some of the pieces is told by `Inline.HasRead`: the keys are those of the pieces, in the order
of their first occurrence, and each has the value and the place of its last one.  One more piece keeps
it (`HasRead.assign` and `HasRead.skip`), so it holds of the whole query; and as a link stands in its
line, each place is that of the raw text of the value.  The theorem this file exists for is
`Document.create_queried`.
-/

namespace TalkDeck

open Text

namespace Inline

/-! ## Pieces of a query -/

/-- A piece that gives a key a value: the key, which is not empty, the first equals sign, and the raw
text of the value. -/
structure Assigns (piece : List Char) (key : String) (raw : List Char) : Prop where
  eq : piece = key.toList ++ '=' :: raw
  key_ne : key ≠ ""
  key_free : '=' ∉ key.toList

theorem Assigns.split {piece raw : List Char} {key : String} (h : Assigns piece key raw) :
    piece.takeWhile (· != '=') = key.toList ∧ piece.dropWhile (· != '=') = '=' :: raw := by
  have hkey : ∀ c ∈ key.toList, (c != '=') = true := by
    intro c hc
    rw [bne_iff_ne]
    rintro rfl
    exact h.key_free hc
  rw [h.eq]
  exact takeWhile_append_stop hkey (bne_self_eq_false '=') raw

/-- A piece gives one key one value. -/
theorem Assigns.unique {piece raw raw' : List Char} {key key' : String} (h : Assigns piece key raw)
    (h' : Assigns piece key' raw') : key = key' ∧ raw = raw' := by
  obtain ⟨hkey, hraw⟩ := h.split
  obtain ⟨hkey', hraw'⟩ := h'.split
  rw [hkey] at hkey'
  rw [hraw] at hraw'
  exact ⟨String.toList_inj.mp hkey', List.tail_eq_of_cons_eq hraw'⟩

/-- A piece without a value to give has no key before its first equals sign, or no such sign. -/
theorem assigns_or (piece : List Char) : (∃ key raw, Assigns piece key raw) ∨
    (∀ key raw, ¬ Assigns piece key raw) ∧
      (piece.takeWhile (· != '=') = [] ∨ piece.dropWhile (· != '=') = []) := by
  by_cases h : piece.takeWhile (· != '=') = [] ∨ piece.dropWhile (· != '=') = []
  · right
    refine ⟨fun key raw hassigns => ?_, h⟩
    obtain ⟨hkey, hraw⟩ := hassigns.split
    rcases h with h | h
    · rw [hkey] at h
      exact hassigns.key_ne (String.toList_eq_nil_iff.mp h)
    · rw [hraw] at h
      cases h
  · left
    obtain ⟨hkey, hraw⟩ := not_or.mp h
    obtain ⟨c, raw, hrest⟩ := List.exists_cons_of_ne_nil hraw
    have hstop : c = '=' := by
      simpa [hrest] using List.head_dropWhile_not (· != '=') hraw
    rw [hstop] at hrest
    refine ⟨String.ofList (piece.takeWhile (· != '=')), raw, ?_, ?_, ?_⟩
    · rw [String.toList_ofList, ← hrest, List.takeWhile_append_dropWhile]
    · intro hempty
      rw [← String.toList_eq_nil_iff, String.toList_ofList] at hempty
      exact hkey hempty
    · rw [String.toList_ofList]
      exact not_mem_takeWhile_ne '=' piece

/-- Pieces that others follow, each with the sign after it. -/
def joined (pieces : List (List Char)) : List Char := pieces.flatMap (· ++ ['&'])

theorem joined_append (pieces : List (List Char)) (piece : List Char) :
    joined (pieces ++ [piece]) = joined pieces ++ (piece ++ ['&']) := by
  unfold joined
  rw [List.flatMap_append, List.flatMap_singleton]

/-- A piece stands in its query after the pieces before it. -/
theorem exists_joinWith (before : List (List Char)) (piece : List Char) (after : List (List Char)) :
    ∃ rest, joinWith ['&'] (before ++ piece :: after) = joined before ++ (piece ++ rest) := by
  induction before with
  | nil =>
    cases after with
    | nil => exact ⟨[], (List.append_nil piece).symm⟩
    | cons p ps => exact ⟨['&'] ++ joinWith ['&'] (p :: ps), List.append_assoc _ _ _⟩
  | cons q before ih =>
    obtain ⟨rest, hrest⟩ := ih
    refine ⟨rest, ?_⟩
    have hstep : joinWith ['&'] (q :: (before ++ piece :: after)) =
        q ++ ['&'] ++ joinWith ['&'] (before ++ piece :: after) := joinWith.eq_3 _ _ _ (by simp)
    rw [List.cons_append, hstep, hrest]
    simp only [joined, List.flatMap_cons, List.append_assoc]

/-! ## Setting values -/

theorem mem_put {α : Type} {ps : List (String × α)} {key : String} {a : α} {p : String × α} :
    p ∈ put ps key a ↔ p = (key, a) ∨ p ∈ ps ∧ p.1 ≠ key := by
  have hset : ∀ q : String × α, (if q.1 == key then (q.1, a) else (q.1, q.2)) =
      if q.1 = key then (key, a) else q := by
    intro q
    by_cases hq : q.1 = key
    · simp [hq]
    · simp [hq]
  unfold put
  split
  · next hany =>
    obtain ⟨q, hq, hkey⟩ := List.any_eq_true.mp hany
    simp only [hset, List.mem_map]
    constructor
    · rintro ⟨r, hr, rfl⟩
      by_cases hrkey : r.1 = key
      · rw [if_pos hrkey]
        exact Or.inl rfl
      · rw [if_neg hrkey]
        exact Or.inr ⟨hr, hrkey⟩
    · rintro (rfl | ⟨hp, hne⟩)
      · exact ⟨q, hq, if_pos (eq_of_beq hkey)⟩
      · exact ⟨p, hp, if_neg hne⟩
  · next hany =>
    have hnew : ∀ q ∈ ps, q.1 ≠ key := by
      intro q hq heq
      exact hany (List.any_eq_true.mpr ⟨q, hq, beq_iff_eq.mpr heq⟩)
    rw [List.mem_append, List.mem_singleton, or_comm]
    constructor
    · exact Or.imp_right fun hp => ⟨hp, hnew p hp⟩
    · exact Or.imp_right And.left

/-- A key keeps its place, and a new one comes last. -/
theorem keys_put {α : Type} (ps : List (String × α)) (key : String) (a : α) :
    (put ps key a).map (·.1) =
      if key ∈ ps.map (·.1) then ps.map (·.1) else ps.map (·.1) ++ [key] := by
  have hany : ps.any (·.1 == key) = true ↔ key ∈ ps.map (·.1) := by
    simp only [List.any_eq_true, List.mem_map, beq_iff_eq]
  unfold put
  by_cases h : key ∈ ps.map (·.1)
  · rw [if_pos (hany.mpr h), if_pos h, List.map_map]
    refine List.map_congr_left fun q _ => ?_
    by_cases hq : q.1 = key <;> simp [hq]
  · rw [if_neg (mt hany.mp h), if_neg h, List.map_append]
    rfl

/-! ## Reading pieces one by one -/

/-- A key comes before another if some piece gives it a value before any piece gives one to the
other. -/
def Precedes (pieces : List (List Char)) (key other : String) : Prop :=
  key ≠ other ∧ ∃ before piece after raw, pieces = before ++ piece :: after ∧
    Assigns piece key raw ∧ ∀ earlier ∈ before, ∀ raw', ¬ Assigns earlier other raw'

theorem Precedes.append {pieces : List (List Char)} {key other : String}
    (h : Precedes pieces key other) (piece : List Char) :
    Precedes (pieces ++ [piece]) key other := by
  obtain ⟨hne, before, p, after, raw, rfl, hassigns, hbefore⟩ := h
  refine ⟨hne, before, p, after ++ [piece], raw, ?_, hassigns, hbefore⟩
  rw [List.append_assoc, List.cons_append]

/-- The parameter that the last piece with its key gives, in a query that starts at `start`. -/
def IsLast (line start : Nat) (pieces : List (List Char)) (p : String × InlineParam) : Prop :=
  ∃ before piece after raw, pieces = before ++ piece :: after ∧ Assigns piece p.1 raw ∧
    (∀ later ∈ after, ∀ raw', ¬ Assigns later p.1 raw') ∧
    p.2.value = String.ofList (Percent.decode raw) ∧
    p.2.range = Range.onLine line (start + (joined before).length + p.1.length + 1)
      (start + (joined before).length + p.1.length + 1 + raw.length)

theorem IsLast.append {line start : Nat} {pieces : List (List Char)} {p : String × InlineParam}
    (h : IsLast line start pieces p) {piece : List Char}
    (hpiece : ∀ raw, ¬ Assigns piece p.1 raw) : IsLast line start (pieces ++ [piece]) p := by
  obtain ⟨before, q, after, raw, rfl, hassigns, hafter, hvalue, hrange⟩ := h
  refine ⟨before, q, after ++ [piece], raw, ?_, hassigns, fun later hlater => ?_, hvalue, hrange⟩
  · rw [List.append_assoc, List.cons_append]
  · rcases List.mem_append.mp hlater with hlater | hlater
    · exact hafter later hlater
    · rw [List.mem_singleton.mp hlater]
      exact hpiece

/-- The parameters of the pieces read so far. -/
structure HasRead (line start : Nat) (pieces : List (List Char))
    (ps : List (String × InlineParam)) : Prop where
  mem_keys : ∀ key, key ∈ ps.map (·.1) ↔ ∃ piece ∈ pieces, ∃ raw, Assigns piece key raw
  last : ∀ p ∈ ps, IsLast line start pieces p
  order : (ps.map (·.1)).Pairwise (Precedes pieces)

namespace HasRead

variable {line start : Nat} {pieces : List (List Char)} {ps : List (String × InlineParam)}
  {piece raw : List Char} {key : String}

theorem nil (line start : Nat) : HasRead line start [] [] where
  mem_keys := fun key => by simp
  last := fun _ hp => absurd hp List.not_mem_nil
  order := List.Pairwise.nil

theorem skip (h : HasRead line start pieces ps) (hpiece : ∀ key raw, ¬ Assigns piece key raw) :
    HasRead line start (pieces ++ [piece]) ps where
  mem_keys := by
    intro key
    rw [h.mem_keys key]
    constructor
    · rintro ⟨p, hp, hraw⟩
      exact ⟨p, List.mem_append_left _ hp, hraw⟩
    · rintro ⟨p, hp, raw, hraw⟩
      rcases List.mem_append.mp hp with hp | hp
      · exact ⟨p, hp, raw, hraw⟩
      · rw [List.mem_singleton.mp hp] at hraw
        exact absurd hraw (hpiece key raw)
  last := fun p hp => (h.last p hp).append (hpiece p.1)
  order := h.order.imp fun hprecedes => hprecedes.append piece

theorem assign (h : HasRead line start pieces ps) (hpiece : Assigns piece key raw)
    {param : InlineParam} (hvalue : param.value = String.ofList (Percent.decode raw))
    (hrange : param.range = Range.onLine line (start + (joined pieces).length + key.length + 1)
      (start + (joined pieces).length + key.length + 1 + raw.length)) :
    HasRead line start (pieces ++ [piece]) (put ps key param) where
  mem_keys := by
    intro other
    have hput : other ∈ (put ps key param).map (·.1) ↔ other = key ∨ other ∈ ps.map (·.1) := by
      rw [keys_put]
      split
      · next hkey =>
        exact ⟨Or.inr, fun hother => hother.elim (fun heq => heq ▸ hkey) id⟩
      · rw [List.mem_append, List.mem_singleton, or_comm]
    rw [hput, h.mem_keys other]
    constructor
    · rintro (rfl | ⟨p, hp, hraw⟩)
      · exact ⟨piece, List.mem_append_right _ (List.mem_singleton_self piece), raw, hpiece⟩
      · exact ⟨p, List.mem_append_left _ hp, hraw⟩
    · rintro ⟨p, hp, raw', hraw'⟩
      rcases List.mem_append.mp hp with hp | hp
      · exact Or.inr ⟨p, hp, raw', hraw'⟩
      · rw [List.mem_singleton.mp hp] at hraw'
        exact Or.inl (hraw'.unique hpiece).1
  last := by
    intro p hp
    rcases mem_put.mp hp with rfl | ⟨hp, hne⟩
    · exact ⟨pieces, piece, [], raw, rfl, hpiece, fun _ hl => absurd hl List.not_mem_nil, hvalue,
        hrange⟩
    · exact (h.last p hp).append fun raw' hraw' => hne (hraw'.unique hpiece).1
  order := by
    have hold := h.order.imp fun hprecedes => hprecedes.append piece
    rw [keys_put]
    split
    · exact hold
    · next hnew =>
      refine List.pairwise_append.mpr ⟨hold, List.pairwise_singleton _ _, ?_⟩
      intro other hother last hlast
      rw [List.mem_singleton.mp hlast]
      -- The other key occurs already, and this one does not.
      obtain ⟨p, hp, raw', hraw'⟩ := (h.mem_keys other).mp hother
      obtain ⟨before, after, rfl⟩ := List.append_of_mem hp
      refine ⟨fun heq => hnew (heq ▸ hother), before, p, after ++ [piece], raw', by simp, hraw',
        fun earlier hearlier raw'' hraw'' => ?_⟩
      exact hnew ((h.mem_keys key).mpr ⟨earlier, List.mem_append_left _ hearlier, raw'', hraw''⟩)

end HasRead

theorem paramsFrom_cons_skip {line offset : Nat} {piece : List Char} {pieces : List (List Char)}
    {ps : List (String × InlineParam)}
    (h : piece.takeWhile (· != '=') = [] ∨ piece.dropWhile (· != '=') = []) :
    paramsFrom line offset (piece :: pieces) ps =
      paramsFrom line (offset + piece.length + 1) pieces ps := by
  rw [paramsFrom]
  rcases h with h | h
  · simp only [h, List.isEmpty_nil, if_true]
    split <;> rfl
  · simp only [h]

theorem paramsFrom_cons_assign {line offset : Nat} {piece raw : List Char} {key : String}
    {pieces : List (List Char)} {ps : List (String × InlineParam)} (h : Assigns piece key raw) :
    paramsFrom line offset (piece :: pieces) ps =
      paramsFrom line (offset + piece.length + 1) pieces
        (put ps key ⟨String.ofList (Percent.decode raw), Range.onLine line (offset + key.length + 1)
          (offset + key.length + 1 + raw.length)⟩) := by
  obtain ⟨hkey, hraw⟩ := h.split
  have hne : key.toList.isEmpty = false := by
    rw [List.isEmpty_eq_false_iff]
    intro hnil
    exact h.key_ne (String.toList_eq_nil_iff.mp hnil)
  rw [paramsFrom]
  simp only [hkey, hraw, hne, String.ofList_toList, String.length_toList, Bool.false_eq_true,
    if_false]

/-- What is read stays true of the pieces read, up to the last one. -/
theorem hasRead_paramsFrom {line start offset : Nat} {pieces rest : List (List Char)}
    {ps : List (String × InlineParam)} (h : HasRead line start pieces ps)
    (hoffset : offset = start + (joined pieces).length) :
    HasRead line start (pieces ++ rest) (paramsFrom line offset rest ps) := by
  induction rest generalizing pieces offset ps with
  | nil => rwa [List.append_nil]
  | cons piece rest ih =>
    have hnext : offset + piece.length + 1 = start + (joined (pieces ++ [piece])).length := by
      rw [joined_append, List.length_append, List.length_append, List.length_singleton]
      omega
    rw [List.append_cons]
    rcases assigns_or piece with ⟨key, raw, hpiece⟩ | ⟨hnone, hshape⟩
    · rw [paramsFrom_cons_assign hpiece]
      exact ih (h.assign hpiece rfl (by rw [hoffset])) hnext
    · rw [paramsFrom_cons_skip hshape]
      exact ih (h.skip hnone) hnext

/-! ## Parameters in their line -/

/-- The pieces of a link's query. -/
def Raw.pieces (r : Raw) : List (List Char) := splitAt '&' (r.query.getD [])

/-- The raw text of a value stands in the text of its link. -/
theorem Raw.exists_text_eq (f : Form) {r : Raw} {before after : List (List Char)}
    {piece raw : List Char} {key : String} (hpieces : r.pieces = before ++ piece :: after)
    (hpiece : Assigns piece key raw) :
    ∃ front rest, r.text f = front ++ raw ++ rest ∧
      front.length = r.queryStart f + (joined before).length + key.length + 1 := by
  obtain ⟨rest, hrest⟩ := exists_joinWith before piece after
  have hquery : r.query.getD [] = joined before ++ (piece ++ rest) := by
    rw [← hrest, ← hpieces, pieces, joinWith_splitAt]
  cases hq : r.query with
  | none =>
    -- Without a query the only piece is empty.
    rw [hq, Option.getD_none] at hquery
    rw [hpiece.eq] at hquery
    simp at hquery
  | some q =>
    rw [hq, Option.getD_some] at hquery
    refine ⟨r.opening f ++ r.type ++ '?' :: (joined before ++ (key.toList ++ ['='])),
      rest ++ [')'], ?_, ?_⟩
    · rw [r.text_eq f, hq, ending, hquery, hpiece.eq]
      simp
    · simp only [List.length_append, List.length_cons, List.length_nil, r.length_opening,
        String.length_toList, queryStart]
      omega

end Inline

namespace Document

variable {limits : Limits} {uri content seq : String} {version : Int} {d : Document}

/-- A link that is read from its parts in the deck.  Its keys are those of the pieces of its query, in
the order of their first occurrence; the value of each is the decoded raw text of the last piece with
the key, and stands where its range says. -/
structure Queried (d : Document) (f : Inline.Form) (a : Inline) (r : Inline.Raw) : Prop where
  text : d.textIn a.range = r.text f
  mem_keys : ∀ key, key ∈ a.params.map (·.1) ↔ ∃ piece ∈ r.pieces, ∃ raw,
    Inline.Assigns piece key raw
  last : ∀ p ∈ a.params, ∃ before piece after raw, r.pieces = before ++ piece :: after ∧
    Inline.Assigns piece p.1 raw ∧ (∀ later ∈ after, ∀ raw', ¬ Inline.Assigns later p.1 raw') ∧
    p.2.value = String.ofList (Percent.decode raw) ∧ d.textIn p.2.range = raw ∧
    p.2.range.Inside a.range ∧ p.2.range.start.line = a.range.start.line ∧
    p.2.range.stop.line = a.range.start.line
  order : (a.params.map (·.1)).Pairwise (Inline.Precedes r.pieces)

theorem queried_of_mem_ofLine {f : Inline.Form} {n : Nat} {a : Inline}
    (h : a ∈ Inline.ofLine f n (d.line n)) : ∃ r, r.Fits f ∧ d.Queried f a r := by
  obtain ⟨before, r, after, hfits, hline, rfl⟩ := Inline.exists_raw_of_mem_ofLine h
  have hread : Inline.HasRead n (before.length + r.queryStart f) r.pieces
      (Inline.ofRaw f n before.length r).params :=
    Inline.hasRead_paramsFrom (Inline.HasRead.nil n _) rfl
  refine ⟨r, hfits, textIn_of_line hline, hread.mem_keys, fun p hp => ?_, hread.order⟩
  obtain ⟨earlier, piece, later, raw, hpieces, hpiece, hlast, hvalue, hrange⟩ := hread.last p hp
  obtain ⟨front, rest, htext, hfront⟩ := Inline.Raw.exists_text_eq f hpieces hpiece
  have hstart : before.length + r.queryStart f + (Inline.joined earlier).length + p.1.length + 1 =
      (before ++ front).length := by
    rw [List.length_append, hfront]
    omega
  rw [hstart] at hrange
  have hwhole : d.line n = (before ++ front) ++ raw ++ (rest ++ after) := by
    rw [hline, htext]
    simp only [List.append_assoc]
  have hinside : (before ++ front).length + raw.length ≤ before.length + (r.text f).length := by
    rw [htext]
    simp only [List.length_append]
    omega
  refine ⟨earlier, piece, later, raw, hpieces, hpiece, hlast, hvalue, ?_, ?_, ?_, ?_⟩
  · rw [hrange]
    exact textIn_of_line hwhole
  · rw [hrange]
    refine ⟨Or.inr ⟨rfl, ?_⟩, Or.inr ⟨rfl, hinside⟩⟩
    show before.length ≤ (before ++ front).length
    rw [List.length_append]
    exact Nat.le_add_right _ _
  · rw [hrange]
    rfl
  · rw [hrange]
    rfl

theorem queried_of_mem_ofLines {f : Inline.Form} {first : Nat} {ls : List Line} {a : Inline}
    (hls : ls <+: d.lines.drop first) (h : a ∈ Inline.ofLines f first ls) :
    ∃ r, r.Fits f ∧ d.Queried f a r := by
  obtain ⟨⟨l, n⟩, hmem, ha⟩ := List.mem_flatMap.mp h
  obtain ⟨-, hline⟩ := (numbers_zipIdx hls).line_eq hmem
  change d.line n = l at hline
  change a ∈ Inline.ofLine f n l at ha
  rw [← hline] at ha
  exact queried_of_mem_ofLine ha

/-- **Ranges of query values cover the raw text that was decoded.**  In every deck that was read, each
link and each directive has the parameters of the query in its text. -/
theorem create_queried (hd : create limits uri version content seq = .ok d) {s : Slide}
    (hs : s ∈ d.slides) :
    (∀ a ∈ s.links, ∃ r, Inline.IsAction r ∧ d.Queried Inline.actionForm a r) ∧
      ∀ a ∈ s.directives, ∃ r, Inline.IsDirective r ∧ d.Queried Inline.renderForm a r := by
  rcases lines_of_mem_slides hd hs with
    ⟨-, -, -, hlinks, hdirectives⟩ | ⟨first, ls, -, hls, -, -, hlinks, hdirectives⟩
  · rw [hlinks, hdirectives]
    exact ⟨fun a ha => absurd ha List.not_mem_nil, fun a ha => absurd ha List.not_mem_nil⟩
  · rw [hlinks, hdirectives]
    constructor
    · intro a ha
      obtain ⟨r, hfits, hqueried⟩ := queried_of_mem_ofLines hls ha
      exact ⟨r, (Inline.fits_actionForm_iff r).mp hfits, hqueried⟩
    · intro a ha
      obtain ⟨r, hfits, hqueried⟩ := queried_of_mem_ofLines hls ha
      exact ⟨r, (Inline.fits_renderForm_iff r).mp hfits, hqueried⟩

/-- A link whose query repeats a key, has pieces without a key or a sign and a value with a sign of
its own, and a directive after it. -/
theorem create_queried_repeated : ∃ d s,
    create .usual "a" 1 "[Go](action:run?x=1&&=2&y&z=&x=a%20b=c) [](render:file?path=a.py)" "sequence" =
      .ok d ∧
    s ∈ d.slides ∧
    s.links.map (·.params) =
      [[("x", ⟨"a b=c", Range.onLine 0 31 38⟩), ("z", ⟨"", Range.onLine 0 28 28⟩)]] ∧
    s.directives.map (·.params) = [[("path", ⟨"a.py", Range.onLine 0 60 64⟩)]] ∧
    (∀ a ∈ s.links, ∃ r, Inline.IsAction r ∧ d.Queried Inline.actionForm a r) ∧
      ∀ a ∈ s.directives, ∃ r, Inline.IsDirective r ∧ d.Queried Inline.renderForm a r := by
  obtain ⟨d, hd, hparams⟩ := exists_eq_ok_of_any
    (x := create .usual "a" 1 "[Go](action:run?x=1&&=2&y&z=&x=a%20b=c) [](render:file?path=a.py)"
      "sequence")
    (p := fun d => d.slides.any fun s =>
      s.links.map (·.params) ==
          [[("x", ⟨"a b=c", Range.onLine 0 31 38⟩), ("z", ⟨"", Range.onLine 0 28 28⟩)]] &&
        s.directives.map (·.params) == [[("path", ⟨"a.py", Range.onLine 0 60 64⟩)]])
    (by decide +kernel)
  obtain ⟨s, hs, hparams⟩ := List.any_eq_true.mp hparams
  obtain ⟨hlinks, hdirectives⟩ := Bool.and_eq_true_iff.mp hparams
  exact ⟨d, s, hd, hs, eq_of_beq hlinks, eq_of_beq hdirectives, create_queried hd hs⟩

end Document
end TalkDeck
