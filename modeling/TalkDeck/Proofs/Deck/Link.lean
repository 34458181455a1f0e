import Mathlib.Data.List.TakeWhile
import TalkDeck.Deck.Inline
import TalkDeck.Proofs.Position

/-
Links stand in the text as they are read: a link that opens a text is a prefix of it, and a link
found in a line stands there at its offset.
-/

namespace TalkDeck
namespace Inline

open Text

/-- The text after the type of a link. -/
def Raw.ending (query : Option (List Char)) : List Char :=
  (match query with
    | some q => '?' :: q
    | none => []) ++ [')']

theorem Raw.text_append (f : Form) (r : Raw) (tail : List Char) :
    r.text f ++ tail = '[' :: (r.label ++ (([']', '('] ++ f.scheme) ++
      (r.type ++ (Raw.ending r.query ++ tail)))) := by
  obtain ⟨label, type, query⟩ := r
  cases query with
  | none => simp only [text, ending, List.append_assoc, List.cons_append, List.nil_append]
  | some q => simp only [text, ending, List.append_assoc, List.cons_append, List.nil_append]

theorem ending?_isPrefix {cs : List Char} {query : Option (List Char)}
    (h : ending? cs = some query) : Raw.ending query <+: cs := by
  unfold ending? at h
  split at h
  · next rest =>
    split at h
    · cases h
    · next hne =>
      obtain rfl := Option.some.inj h
      -- What stops the query is its closing parenthesis.
      cases hd : rest.dropWhile (· != ')') with
      | nil => rw [hd] at hne; exact absurd rfl hne
      | cons c tail =>
        have hc : c = ')' := by
          have hne' : rest.dropWhile (· != ')') ≠ [] := by rw [hd]; exact List.cons_ne_nil c tail
          simpa [hd] using List.head_dropWhile_not (· != ')') hne'
        refine ⟨tail, ?_⟩
        have hsplit := List.takeWhile_append_dropWhile (p := (· != ')')) (l := rest)
        rw [hd, hc] at hsplit
        conv => rhs; rw [← hsplit]
        unfold Raw.ending
        rw [List.append_assoc]
        rfl
  · next rest =>
    obtain rfl := Option.some.inj h
    exact ⟨rest, rfl⟩
  · cases h

theorem open?_isPrefix {f : Form} {cs : List Char} {r : Raw} (h : open? f cs = some r) :
    r.text f <+: cs := by
  unfold open? at h
  split at h
  · next cs =>
    dsimp only at h
    split at h
    · cases h
    · obtain ⟨rest, hrest, h⟩ := Option.bind_eq_some_iff.mp h
      split at h
      · obtain ⟨query, hquery, hr⟩ := Option.bind_eq_some_iff.mp h
        obtain rfl := Option.some.inj hr
        obtain ⟨tail, htail⟩ := ending?_isPrefix hquery
        refine ⟨tail, ?_⟩
        rw [Raw.text_append]
        dsimp only
        rw [htail, List.takeWhile_append_dropWhile, ← strip?_eq_some_iff.mp hrest,
          List.takeWhile_append_dropWhile]
      · cases h
  · cases h

theorem mem_scan {f : Form} {skip start offset : Nat} {cs : List Char} {r : Raw}
    (h : (offset, r) ∈ scan f skip start cs) :
    ∃ k, offset = start + k ∧ r.text f <+: cs.drop k := by
  induction cs generalizing skip start with
  | nil => cases skip <;> cases h
  | cons c cs ih =>
    have hlater : ∀ {skip}, (offset, r) ∈ scan f skip (start + 1) cs →
        ∃ k, offset = start + k ∧ r.text f <+: (c :: cs).drop k := by
      intro skip hmem
      obtain ⟨k, hk, hprefix⟩ := ih hmem
      exact ⟨k + 1, by omega, hprefix⟩
    cases skip with
    | succ skip => exact hlater h
    | zero =>
      rw [scan] at h
      split at h
      · next r' hr =>
        rcases List.mem_cons.mp h with heq | h
        · cases heq
          exact ⟨0, rfl, open?_isPrefix hr⟩
        · exact hlater h
      · exact hlater h

/-- A link stands at its offset in the line. -/
theorem mem_ofLine {f : Form} {n : Nat} {l : Line} {link : Inline} (h : link ∈ ofLine f n l) :
    ∃ offset r, link = ofRaw f n offset r ∧ r.text f <+: l.drop offset := by
  obtain ⟨⟨offset, r⟩, hmem, rfl⟩ := List.mem_map.mp h
  obtain ⟨k, hk, hprefix⟩ := mem_scan hmem
  rw [Nat.zero_add] at hk
  subst hk
  exact ⟨offset, r, rfl, hprefix⟩

/-- The range of a link stays on its line. -/
theorem withinLine_of_mem_ofLine {f : Form} {n : Nat} {l : Line} {link : Inline}
    (h : link ∈ ofLine f n l) : link.range.WithinLine n l.length := by
  obtain ⟨offset, r, rfl, hprefix⟩ := mem_ofLine h
  refine ⟨offset, offset + (r.text f).length, rfl, Nat.le_add_right _ _, ?_⟩
  have hlength := hprefix.length_le
  have hpos : 0 < (r.text f).length := by
    rw [← List.append_nil (r.text f), Raw.text_append, List.length_cons]
    exact Nat.succ_pos _
  rw [List.length_drop] at hlength
  omega

end Inline
end TalkDeck
