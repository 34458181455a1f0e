import Mathlib.Data.List.Nodup
import TalkDeck.Proofs.Deck.Leftmost
import TalkDeck.Proofs.Deck.Reading
import TalkDeck.Proofs.Text.Percent

/-
Links that are written are read back.

A link whose parts are well formed is what its text opens with (`Inline.open?_eq_some_iff`), and a query
written pair by pair with percent-encoded values gives its pairs in their order (`Inline.params_query`).
A deck of the one line is one slide with the one link; the theorem this file exists for is
`Document.create_link`.
-/

namespace TalkDeck

open Text

namespace Inline

/-! ## The parts of a link -/

/-- Parts that the text of a link keeps apart. -/
structure Raw.WellFormed (f : Form) (r : Raw) : Prop where
  label_ne : r.label ≠ []
  label : ']' ∉ r.label
  admits : f.admits r.type = true
  type : ∀ c ∈ r.type, c ≠ '?' ∧ c ≠ ')'
  query : ∀ q ∈ r.query, ')' ∉ q

theorem Raw.WellFormed.fits {f : Form} {r : Raw} (h : r.WellFormed f) : r.Fits f where
  label := h.label
  bare := fun hnil => absurd hnil h.label_ne
  admits := h.admits
  type := h.type
  query := h.query

theorem scan_nil_of_length_le {f : Form} {skip offset : Nat} {cs : List Char}
    (h : cs.length ≤ skip) : scan f skip offset cs = [] := by
  induction cs generalizing skip offset with
  | nil => cases skip <;> rfl
  | cons c cs ih =>
    cases skip with
    | zero => cases h
    | succ skip => exact ih (Nat.le_of_succ_le_succ h)

/-- The text of a link holds the one link. -/
theorem scan_text {f : Form} {r : Raw} (h : r.WellFormed f) (offset : Nat) :
    scan f 0 offset (r.text f) = [(offset, r)] := by
  have hopen : open? f (r.text f) = some r :=
    open?_eq_some_iff.mpr ⟨h.fits, List.prefix_rfl⟩
  have hcons := Raw.text_append f r []
  rw [List.append_nil] at hcons
  rw [hcons] at hopen ⊢
  rw [scan, hopen]
  dsimp only
  exact congrArg _ (scan_nil_of_length_le (by rw [hcons]; exact Nat.le_refl _))

/-! ## Queries -/

/-- A key and its percent-encoded value. -/
def pairText (p : String × String) : List Char :=
  p.1.toList ++ '=' :: Percent.encode Percent.isUnreserved p.2.toList

/-- Pairs one after the other; without any there is no query. -/
def queryOf (pairs : List (String × String)) : Option (List Char) :=
  if pairs.isEmpty then none else some (joinWith ['&'] (pairs.map pairText))

/-- A key that can be written in a query. -/
def IsKey (key : String) : Prop := key ≠ "" ∧ ∀ c ∈ ['&', '=', ')', '\n'], c ∉ key.toList

theorem not_mem_pairText {p : String × String} (hp : IsKey p.1) {c : Char}
    (hc : c ∈ ['&', '=', ')', '\n']) (hequals : c ≠ '=') : c ∉ pairText p := by
  have hencoded : Percent.isEncoded c = false := by
    simp only [List.mem_cons, List.not_mem_nil, or_false] at hc
    rcases hc with rfl | rfl | rfl | rfl <;> decide
  intro hmem
  rcases List.mem_append.mp hmem with hmem | hmem
  · exact hp.2 c hc hmem
  · rcases List.mem_cons.mp hmem with heq | hmem
    · exact hequals heq
    · exact Percent.not_mem_encode hencoded _ hmem

theorem put_of_new {α : Type} {ps : List (String × α)} {key : String}
    (h : key ∉ ps.map (·.1)) (a : α) : put ps key a = ps ++ [(key, a)] := by
  rw [put, if_neg]
  intro hany
  obtain ⟨p, hp, heq⟩ := List.any_eq_true.mp hany
  exact h (List.mem_map.mpr ⟨p, hp, eq_of_beq heq⟩)

theorem paramsFrom_pairs {line offset : Nat} {pairs : List (String × String)}
    {ps : List (String × InlineParam)} (hkeys : ∀ p ∈ pairs, IsKey p.1)
    (hnodup : (ps.map (·.1) ++ pairs.map (·.1)).Nodup) :
    (paramsFrom line offset (pairs.map pairText) ps).map (fun p => (p.1, p.2.value)) =
      ps.map (fun p => (p.1, p.2.value)) ++ pairs := by
  induction pairs generalizing offset ps with
  | nil => exact (List.append_nil _).symm
  | cons p pairs ih =>
    have hp := hkeys p List.mem_cons_self
    have hkey : ∀ c ∈ p.1.toList, (c != '=') = true := by
      intro c hc
      rw [bne_iff_ne]
      rintro rfl
      exact hp.2 '=' (by decide) hc
    obtain ⟨htake, hdrop⟩ := takeWhile_append_stop hkey (bne_self_eq_false '=')
      (Percent.encode Percent.isUnreserved p.2.toList)
    have hne : p.1.toList.isEmpty = false := by
      rw [List.isEmpty_eq_false_iff]
      intro hnil
      exact hp.1 (String.toList_eq_nil_iff.mp hnil)
    have hnew : p.1 ∉ ps.map (·.1) := by
      intro hmem
      rw [List.map_cons, List.nodup_append] at hnodup
      exact hnodup.2.2 _ hmem _ List.mem_cons_self rfl
    have hdecode : String.ofList (Percent.decode (Percent.encode Percent.isUnreserved p.2.toList)) =
        p.2 := by
      rw [Percent.decode_encode (by decide), String.ofList_toList]
    rw [List.map_cons, paramsFrom, pairText]
    simp only [htake, hdrop, hne, hdecode, String.ofList_toList, Bool.false_eq_true, if_false,
      put_of_new hnew]
    rw [ih (fun q hq => hkeys q (List.mem_cons_of_mem p hq))]
    · rw [List.map_append, List.append_assoc]
      rfl
    · rw [List.map_append, List.append_assoc]
      exact hnodup

/-- The pairs of a query are read back. -/
theorem params_query {line offset : Nat} {pairs : List (String × String)}
    (hkeys : ∀ p ∈ pairs, IsKey p.1) (hnodup : (pairs.map (·.1)).Nodup) :
    (paramsFrom line offset (splitAt '&' ((queryOf pairs).getD [])) []).map
      (fun p => (p.1, p.2.value)) = pairs := by
  cases pairs with
  | nil => rfl
  | cons p pairs =>
    have hsplit : splitAt '&' (joinWith ['&'] ((p :: pairs).map pairText)) =
        (p :: pairs).map pairText := by
      refine splitAt_joinWith (List.cons_ne_nil _ _) fun piece hpiece => ?_
      obtain ⟨q, hq, rfl⟩ := List.mem_map.mp hpiece
      exact not_mem_pairText (hkeys q hq) (by decide) (by decide)
    rw [queryOf, if_neg (by simp), Option.getD_some, hsplit]
    exact paramsFrom_pairs hkeys hnodup

theorem not_mem_joinWith {c : Char} {sep : List Char} {pieces : List (List Char)} (hsep : c ∉ sep)
    (h : ∀ piece ∈ pieces, c ∉ piece) : c ∉ joinWith sep pieces := by
  induction pieces with
  | nil => exact List.not_mem_nil
  | cons p ps ih =>
    have hp := h p List.mem_cons_self
    have hps := ih fun piece hpiece => h piece (List.mem_cons_of_mem p hpiece)
    cases ps with
    | nil => exact hp
    | cons q qs =>
      rw [joinWith, List.mem_append, List.mem_append]
      · exact fun hmem => hmem.elim (fun hmem => hmem.elim hp hsep) hps
      · exact List.cons_ne_nil q qs

theorem not_mem_queryOf {pairs : List (String × String)} (hkeys : ∀ p ∈ pairs, IsKey p.1) {c : Char}
    (hc : c ∈ ['&', '=', ')', '\n']) (hequals : c ≠ '=') (hsep : c ∉ ['&']) :
    ∀ q ∈ queryOf pairs, c ∉ q := by
  intro q hq
  rw [queryOf] at hq
  split at hq
  · cases hq
  · obtain rfl := Option.some.inj hq
    refine not_mem_joinWith hsep fun piece hpiece => ?_
    obtain ⟨p, hp, rfl⟩ := List.mem_map.mp hpiece
    exact not_mem_pairText (hkeys p hp) hc hequals

/-! ## Action links -/

/-- The text of an action link: label, type, and the pairs of the query if there are any. -/
def linkText (label type : String) (pairs : List (String × String)) : String :=
  "[" ++ label ++ "](action:" ++ type ++
    (if pairs.isEmpty then ""
      else "?" ++ String.ofList (joinWith ['&'] (pairs.map pairText))) ++ ")"

theorem toList_linkText (label type : String) (pairs : List (String × String)) :
    (linkText label type pairs).toList =
      Raw.text actionForm ⟨label.toList, type.toList, queryOf pairs⟩ := by
  have hscheme : actionForm.scheme = "action:".toList := rfl
  cases pairs with
  | nil => simp [linkText, Raw.text, queryOf, hscheme]
  | cons p pairs => simp [linkText, Raw.text, queryOf, hscheme]

/-- A link without line feeds in its parts has none. -/
theorem newline_not_mem_text {r : Raw} (hlabel : '\n' ∉ r.label) (htype : '\n' ∉ r.type)
    (hquery : ∀ q ∈ r.query, '\n' ∉ q) : '\n' ∉ r.text actionForm := by
  have hscheme : '\n' ∉ actionForm.scheme := by decide
  have hending : '\n' ∉ Raw.ending r.query := by
    cases hq : r.query with
    | none => decide
    | some q =>
      have hnot := hquery q hq
      simp [Raw.ending, hnot]
  have htext := Raw.text_append actionForm r []
  rw [List.append_nil, List.append_nil] at htext
  rw [htext, List.mem_cons, List.mem_append, List.mem_append, List.mem_append]
  simp [hlabel, hscheme, htype, hending]

theorem wellFormed_actionLink {label type : String} {pairs : List (String × String)}
    (hlabel : label ≠ "" ∧ ']' ∉ label.toList) (htype : actionForm.admits type.toList = true)
    (hkeys : ∀ p ∈ pairs, IsKey p.1) :
    Raw.WellFormed actionForm ⟨label.toList, type.toList, queryOf pairs⟩ where
  label_ne := fun hnil => hlabel.1 (String.toList_eq_nil_iff.mp hnil)
  label := hlabel.2
  admits := htype
  type := by
    intro c hc
    have hletter := (admits_actionForm_iff.mp htype).2 c hc
    constructor
    · rintro rfl
      exact absurd hletter (by decide)
    · rintro rfl
      exact absurd hletter (by decide)
  query := not_mem_queryOf hkeys (by decide) (by decide) (by decide)

end Inline

namespace Document

/-! ## A deck of one line -/

variable {limits : Limits} (uri sequenceType : String) (version : Int) {content : String}

/-- A line that opens with a bracket is a deck of one slide with the links of the line. -/
theorem create_bracketLine {l : Line} (hcontent : content.toList = '[' :: l) (hl : '\n' ∉ l) :
    ∃ d slide, create limits uri version content sequenceType = .ok d ∧ d.slides = [slide] ∧
      slide.links = Inline.ofLine Inline.actionForm 0 ('[' :: l) := by
  have hlines : Text.lines content.toList = ['[' :: l] := by
    rw [hcontent]
    refine splitAt_of_not_mem fun hmem => ?_
    rcases List.mem_cons.mp hmem with heq | hmem
    · cases heq
    · exact hl hmem
  -- A bracket opens neither a delimiter nor a fence, so the one line is all text.
  have hslides : ∃ slide, slidesOf limits sequenceType ['[' :: l] none = .ok [slide] ∧
      slide.links = Inline.ofLine Inline.actionForm 0 ('[' :: l) := ⟨_, rfl, List.append_nil _⟩
  obtain ⟨slide, hslide, hlinks⟩ := hslides
  refine ⟨⟨uri, version, content, [slide], none⟩, slide, ?_, rfl, hlinks⟩
  unfold create
  rw [hlines]
  show (slidesOf limits sequenceType ['[' :: l] none >>= fun slides => _) = _
  rw [hslide]
  rfl

/-- A deck that is the text of a link has the link. -/
theorem create_linkLine {r : Inline.Raw} (hcontent : content.toList = r.text Inline.actionForm)
    (hr : r.WellFormed Inline.actionForm) (hnewline : '\n' ∉ r.text Inline.actionForm) :
    ∃ d slide, create limits uri version content sequenceType = .ok d ∧ d.slides = [slide] ∧
      slide.links = [Inline.ofRaw Inline.actionForm 0 0 r] := by
  have hscan := Inline.scan_text hr 0
  have hcons := Inline.Raw.text_append Inline.actionForm r []
  rw [List.append_nil] at hcons
  rw [hcons] at hcontent hnewline hscan
  obtain ⟨d, slide, hd, hslides, hlinks⟩ := create_bracketLine uri sequenceType version hcontent
    fun hmem => hnewline (List.mem_cons_of_mem _ hmem)
  refine ⟨d, slide, hd, hslides, ?_⟩
  rw [hlinks, Inline.ofLine, hscan]
  rfl

/-- **Inline links are read back.**  For a label without a closing bracket, a type of small letters
and dots, and pairs with distinct keys that are free of the characters that divide a query, the deck
that holds just the link is one slide with one link, which has the label, the type, and the pairs in
their order. -/
theorem create_link {label type : String} {pairs : List (String × String)}
    (hlabel : label ≠ "" ∧ ']' ∉ label.toList ∧ '\n' ∉ label.toList)
    (htype : type ≠ "" ∧ ∀ c ∈ type.toList, ('a' ≤ c ∧ c ≤ 'z') ∨ c = '.')
    (hkeys : ∀ p ∈ pairs, p.1 ≠ "" ∧ ∀ c ∈ ['&', '=', ')', '\n'], c ∉ p.1.toList)
    (hnodup : (pairs.map (·.1)).Nodup) :
    ∃ d slide link, create limits uri version (Inline.linkText label type pairs) sequenceType = .ok d ∧
      d.slides = [slide] ∧ slide.links = [link] ∧ link.label = label ∧ link.type = type ∧
      link.params.map (fun p => (p.1, p.2.value)) = pairs := by
  have hadmits : Inline.actionForm.admits type.toList = true :=
    Inline.admits_actionForm_iff.mpr ⟨fun hnil => htype.1 (String.toList_eq_nil_iff.mp hnil), htype.2⟩
  have hwell := Inline.wellFormed_actionLink ⟨hlabel.1, hlabel.2.1⟩ hadmits hkeys
  have hnewline : '\n' ∉ Inline.Raw.text Inline.actionForm
      ⟨label.toList, type.toList, Inline.queryOf pairs⟩ := by
    apply Inline.newline_not_mem_text
    · exact hlabel.2.2
    · exact fun hmem => absurd (htype.2 _ hmem) (by decide)
    · exact Inline.not_mem_queryOf hkeys (by decide) (by decide) (by decide)
  obtain ⟨d, slide, hd, hslides, hlinks⟩ := create_linkLine uri sequenceType version
    (Inline.toList_linkText label type pairs) hwell hnewline
  refine ⟨d, slide, _, hd, hslides, hlinks, ?_, ?_, ?_⟩
  · exact String.ofList_toList
  · exact String.ofList_toList
  · exact Inline.params_query hkeys hnodup

/-- A label and values with the characters that divide the text of a link. -/
theorem create_link_reserved :
    ∃ d slide link, create .usual "a" 1 (Inline.linkText "see [action:x" "file.open"
        [("path", "a&b=c) ä%\n"), ("line", "")]) "sequence" = .ok d ∧
      d.slides = [slide] ∧ slide.links = [link] ∧ link.label = "see [action:x" ∧
      link.type = "file.open" ∧
      link.params.map (fun p => (p.1, p.2.value)) = [("path", "a&b=c) ä%\n"), ("line", "")] :=
  create_link "a" "sequence" 1 (by decide +kernel) (by simp) (by simp) (by decide +kernel)

end Document
end TalkDeck
