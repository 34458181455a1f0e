import TalkDeck.Proofs.Deck.Reading

/-
Blocks among lines.

A block opens at an action fence and closes at a bare one, and to it all other fences are content.  The
scan carries the open block from line to line, and what it finds is that block or stands whole among
the lines that are left (`resumed_or_found`).  So all blocks of a span stand among its lines
(`found_of_mem_scan`), each with the number of its last line (`last_of_mem_scan`).
-/

namespace TalkDeck
namespace Block

/-! ## A block among the lines of its slide -/

/-- What ends a block: a closing fence, or the end of the lines. -/
inductive Raw.Stops (r : Raw) : List Line → Prop where
  | closed {fence : Line} {rest : List Line} (flag : r.unclosed = false)
    (close : fence.isFenceClose = true) : Stops r (fence :: rest)
  | unclosed (flag : r.unclosed = true) : Stops r []

/-- A block among lines of which the first has number `n`: an action fence, then the content, in which
nothing closes it, and then what ends it. -/
structure Raw.Found (r : Raw) (n : Nat) (ls before tail : List Line) (fence : Line) : Prop where
  lines : ls = before ++ fence :: (r.content ++ tail)
  first : r.first = n + before.length
  opens : fence.isActionFence = true
  inside : ∀ l ∈ r.content, l.isFenceClose = false
  stops : r.Stops tail

/-- The rest of a block that is open already, with the content it has so far. -/
structure Raw.Resumed (r : Raw) (ls : List Line) (first : Nat) (content more tail : List Line) :
    Prop where
  lines : ls = more ++ tail
  first : r.first = first
  content : r.content = content.reverse ++ more
  inside : ∀ l ∈ more, l.isFenceClose = false
  stops : r.Stops tail

theorem Raw.Found.cons {r : Raw} {n : Nat} {ls before tail : List Line} {fence : Line}
    (h : r.Found (n + 1) ls before tail fence) (l : Line) :
    r.Found n (l :: ls) (l :: before) tail fence where
  lines := by rw [h.lines, List.cons_append]
  first := by rw [h.first, List.length_cons, Nat.add_assoc, Nat.add_comm 1]
  opens := h.opens
  inside := h.inside
  stops := h.stops

/-- A block that is open after a line had it in its content. -/
theorem Raw.Resumed.cons {r : Raw} {ls content more tail : List Line} {first : Nat} {l : Line}
    (h : r.Resumed ls first (l :: content) more tail) (hl : l.isFenceClose = false) :
    r.Resumed (l :: ls) first content (l :: more) tail where
  lines := by rw [h.lines, List.cons_append]
  first := h.first
  content := by rw [h.content, List.reverse_cons, List.append_assoc, List.singleton_append]
  inside := List.forall_mem_cons.mpr ⟨hl, h.inside⟩
  stops := h.stops

/-- A block that has no content yet opened on the line before. -/
theorem Raw.Resumed.found {r : Raw} {n : Nat} {ls more tail : List Line} {l : Line}
    (h : r.Resumed ls n [] more tail) (hl : l.isActionFence = true) :
    r.Found n (l :: ls) [] tail l := by
  have hcontent : r.content = more := h.content
  refine ⟨?_, h.first, hl, ?_, h.stops⟩
  · rw [hcontent, ← h.lines, List.nil_append]
  · rw [hcontent]
    exact h.inside

/-- Every block that a scan finds is the one that was open, or stands whole among the lines. -/
theorem resumed_or_found {n : Nat} {block : Option (Nat × List Line)} {ls : List Line} {r : Raw}
    (h : r ∈ scan n block ls) :
    (∃ b ∈ block, ∃ more tail, r.Resumed ls b.1 b.2 more tail) ∨
      ∃ before tail fence, r.Found n ls before tail fence := by
  induction ls generalizing n block with
  | nil =>
    cases block with
    | none => cases h
    | some b =>
      obtain rfl := List.mem_singleton.mp h
      exact Or.inl ⟨b, rfl, [], [], rfl, rfl, (List.append_nil _).symm, nofun, .unclosed rfl⟩
  | cons l ls ih =>
    have hlater : (∃ before tail fence, r.Found (n + 1) ls before tail fence) →
        ∃ before tail fence, r.Found n (l :: ls) before tail fence := by
      rintro ⟨before, tail, fence, hfound⟩
      exact ⟨l :: before, tail, fence, hfound.cons l⟩
    cases block with
    | none =>
      rw [scan] at h
      rcases ih h with ⟨b, hb, more, tail, hopen⟩ | hfound
      · split at hb
        · next hfence =>
          cases hb
          exact Or.inr ⟨[], tail, l, hopen.found hfence⟩
        · cases hb
      · exact Or.inr (hlater hfound)
    | some b =>
      rw [scan] at h
      split at h
      · next hclose =>
        rcases List.mem_cons.mp h with rfl | h
        · exact Or.inl ⟨b, rfl, [], l :: ls, rfl, rfl, (List.append_nil _).symm, nofun,
            .closed rfl hclose⟩
        · rcases ih h with ⟨b', hb', -⟩ | hfound
          · cases hb'
          · exact Or.inr (hlater hfound)
      · next hclose =>
        rcases ih h with ⟨b', hb', more, tail, hopen⟩ | hfound
        · cases hb'
          exact Or.inl ⟨b, rfl, l :: more, tail, hopen.cons (Bool.eq_false_iff.mpr hclose)⟩
        · exact Or.inr (hlater hfound)

theorem found_of_mem_scan {n : Nat} {ls : List Line} {r : Raw} (h : r ∈ scan n none ls) :
    ∃ before tail fence, r.Found n ls before tail fence := by
  rcases resumed_or_found h with ⟨b, hb, -⟩ | hfound
  · cases hb
  · exact hfound

/-- The last line of a block is the one after its content, or the last of its content if nothing closes
it.  An open block has the lines since its fence, newest first. -/
theorem last_of_mem_scan {n : Nat} {block : Option (Nat × List Line)} {ls : List Line} {r : Raw}
    (hblock : ∀ b ∈ block, b.1 + 1 + b.2.length = n) (h : r ∈ scan n block ls) :
    r.last + r.unclosed.toNat = r.first + 1 + r.content.length := by
  induction ls generalizing n block with
  | nil =>
    cases block with
    | none => cases h
    | some b =>
      have hlength := hblock b rfl
      obtain rfl := List.mem_singleton.mp h
      show n - 1 + 1 = b.1 + 1 + b.2.reverse.length
      rw [List.length_reverse]
      omega
  | cons l ls ih =>
    cases block with
    | none =>
      rw [scan] at h
      refine ih (fun b hb => ?_) h
      split at hb
      · cases hb
        rfl
      · cases hb
    | some b =>
      have hlength := hblock b rfl
      rw [scan] at h
      split at h
      · rcases List.mem_cons.mp h with rfl | h
        · show n = b.1 + 1 + b.2.reverse.length
          rw [List.length_reverse, hlength]
        · exact ih (by simp) h
      · refine ih (fun b' hb' => ?_) h
        cases hb'
        rw [List.length_cons, ← Nat.add_assoc, hlength]

/-- The content of a block is what follows its opening fence. -/
theorem mem_scan {all ls : List Line} {n : Nat} {r : Raw} (hls : ls <+: all.drop n)
    (h : r ∈ scan n none ls) :
    n ≤ r.first ∧ r.first + r.content.length < n + ls.length ∧
      r.content <+: all.drop (r.first + 1) := by
  obtain ⟨before, tail, fence, hfound⟩ := found_of_mem_scan h
  obtain ⟨rest, hrest⟩ := hls
  have hlength := congrArg List.length hfound.lines
  simp only [List.length_append, List.length_cons] at hlength
  rw [hfound.first]
  refine ⟨Nat.le_add_right n _, by omega, tail ++ rest, ?_⟩
  rw [Nat.add_assoc, ← List.drop_drop, ← hrest, hfound.lines, ← List.drop_drop, List.append_assoc,
    List.drop_left, List.cons_append, List.drop_succ_cons, List.drop_zero, List.append_assoc]

end Block
end TalkDeck
