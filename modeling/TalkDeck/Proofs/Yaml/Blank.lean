import TalkDeck.Proofs.Yaml.Forward
import TalkDeck.Text.Blank
import TalkDeck.Yaml.Value

/-
A text of blanks holds no mapping (`Value.isMap_of_allBlank`).

It need not be empty: many blanks are no spaces of the markup language, and make a plain scalar.  But
none of the signs that open a collection is a blank, so scalars are all there can be, at each stage
from tokens to cells.
-/

namespace TalkDeck
namespace Yaml

open Text (isBlank)

/-! ## Tokens -/

/-- The tokens of a text without any signs. -/
def Token.Kind.isBare : Kind → Bool
  | .streamStart | .streamEnd | .scalar _ true => true
  | _ => false

namespace Scanner

open Token

variable {t : List Char} {s : Scanner}

/-- A scanner that has met no signs. -/
structure Bare (t : List Char) (s : Scanner) : Prop where
  within : Within t s.cursor
  flow : s.flow = 0
  indent : s.indent = -1
  queue : ∀ e ∈ s.queue, e.kind.isBare = true

theorem Bare.push (h : s.Bare t) {e : Token} (he : e.kind.isBare = true) : (s.push e).Bare t := by
  refine ⟨h.within, h.flow, h.indent, fun e' he' => ?_⟩
  rcases List.mem_append.1 he' with he' | he'
  · exact h.queue e' he'
  · rw [List.mem_singleton.1 he']
    exact he

theorem Bare.unwind (h : s.Bare t) {column : Int} (hcolumn : -1 ≤ column) : s.unwind column = s := by
  unfold Scanner.unwind
  split
  · rfl
  · unfold unwindLoop
    rw [if_neg (by rw [h.indent]; omega)]

theorem Bare.skipLoop (h : s.Bare t) (fuel : Nat) : (skipLoop fuel s).Bare t := by
  induction fuel generalizing s with
  | zero => exact h
  | succ fuel ih =>
    have hd : Within t s.cursor.dropSpaces.dropComment.lineBreak.2 :=
      h.within.dropSpaces.dropComment.lineBreak
    unfold Scanner.skipLoop
    simp only
    split
    · exact ⟨hd, h.flow, h.indent, h.queue⟩
    · exact ih ⟨hd, h.flow, h.indent, h.queue⟩

theorem Bare.skipToToken (h : s.Bare t) : s.skipToToken.Bare t := by
  have hfirst : Within t (if s.cursor.mark.index = 0 ∧ s.cursor.peek.toNat = 0xFEFF then s.cursor.next
      else s.cursor) := by
    split
    · exact h.within.next
    · exact h.within
  exact Bare.skipLoop (s := { s with cursor := _ }) ⟨hfirst, h.flow, h.indent, h.queue⟩ _

theorem Bare.dropStale (h : s.Bare t) : Gives (fun _ => True) (Bare t) s.dropStale := by
  unfold Scanner.dropStale
  split
  · exact .of_fail trivial
  · exact .of_ok ⟨h.within, h.flow, h.indent, h.queue⟩

theorem Bare.dropPending (h : s.Bare t) : Gives (fun _ => True) (Bare t) s.dropPending := by
  unfold Scanner.dropPending
  split
  · exact .of_ok h
  · split
    · exact .of_fail trivial
    · exact .of_ok ⟨h.within, h.flow, h.indent, h.queue⟩

theorem Bare.notePending (h : s.Bare t) : Gives (fun _ => True) (Bare t) s.notePending := by
  unfold Scanner.notePending
  split
  · exact .bind h.dropPending fun _ hs => .of_pure ⟨hs.within, hs.flow, hs.indent, hs.queue⟩
  · exact .of_ok h

theorem Bare.scanEnd (h : s.Bare t) : Gives (fun _ => True) (Bare t) s.scanEnd := by
  unfold Scanner.scanEnd
  rw [h.unwind (Int.le_refl _)]
  refine .bind h.dropPending fun s' hs' => .of_pure ?_
  have hpush : (s'.pushHere .streamEnd).Bare t := hs'.push rfl
  exact ⟨hpush.within, hpush.flow, hpush.indent, hpush.queue⟩

theorem Bare.scanPlain (h : s.Bare t) : Gives (fun _ => True) (Bare t) s.scanPlain := by
  unfold Scanner.scanPlain
  refine .bind h.notePending fun s' hs' => .of_pure ?_
  have hpush := hs'.push (e := ⟨.scalar (readPlain s'.inFlow s'.indent s'.cursor).text true,
    s'.cursor.mark, (readPlain s'.inFlow s'.indent s'.cursor).stop⟩) rfl
  exact ⟨(within_readPlain hs'.within _ _).2, hpush.flow, hpush.indent, hpush.queue⟩

/-- No sign is a blank, so a blank ends the text or opens a plain scalar. -/
theorem Bare.scanToken (h : s.Bare t) (ht : ∀ c ∈ t, isBlank c = true) :
    Gives (fun _ => True) (Bare t) s.scanToken := by
  have hblank : s.cursor.peek = nul ∨ isBlank s.cursor.peek = true := by
    unfold Cursor.peek
    cases hrest : s.cursor.rest with
    | nil => exact .inl rfl
    | cons c cs => exact .inr (ht c (h.within.suffix.subset (by rw [hrest]; exact List.mem_cons_self)))
  have hsign : ∀ x : Char, x ≠ nul ∧ isBlank x = false → (s.cursor.peek == x) = false := by
    rintro x ⟨hnul, hx⟩
    rw [beq_eq_false_iff_ne]
    rintro rfl
    rcases hblank with hblank | hblank
    · exact hnul hblank
    · rw [hx] at hblank
      cases hblank
  unfold Scanner.scanToken
  simp only [hsign '%' (by decide), hsign '-' (by decide), hsign '.' (by decide),
    hsign '[' (by decide), hsign '{' (by decide), hsign ']' (by decide), hsign '}' (by decide),
    hsign ',' (by decide), hsign '?' (by decide), hsign ':' (by decide), hsign '*' (by decide),
    hsign '&' (by decide), hsign '!' (by decide), hsign '|' (by decide), hsign '>' (by decide),
    hsign '\x27' (by decide), hsign '\x22' (by decide), Bool.false_and, Bool.false_eq_true, if_false]
  refine .ite (fun _ => h.scanEnd) fun _ => ?_
  exact .ite (fun _ => h.scanPlain) fun _ => .of_fail trivial

theorem Bare.fetch (h : s.Bare t) (ht : ∀ c ∈ t, isBlank c = true) :
    Gives (fun _ => True) (Bare t) s.fetch := by
  refine .bind h.skipToToken.dropStale fun s' hs' => ?_
  rw [hs'.unwind (by omega)]
  exact hs'.scanToken ht

theorem Bare.mustFetch (h : s.Bare t) :
    Gives (fun _ => True) (fun r => r.2.Bare t) s.mustFetch := by
  unfold Scanner.mustFetch
  split
  · exact .of_ok h
  · split
    · exact .of_ok h
    · exact .bind h.dropStale fun _ hs => .of_pure hs

theorem bare_run (ht : ∀ c ∈ t, isBlank c = true) (fuel : Nat) {done : List Token} (h : s.Bare t)
    (hdone : ∀ e ∈ done, e.kind.isBare = true) : ∀ e ∈ (run fuel s done).items, e.kind.isBare = true := by
  induction fuel generalizing s done with
  | zero => exact fun e he => hdone e (List.mem_reverse.1 he)
  | succ fuel ih =>
    rw [run_succ]
    split
    · exact fun e he => hdone e (List.mem_reverse.1 he)
    · next s' hs' =>
      have hs' : s'.Bare t := h.mustFetch.of_eq_ok hs'
      split
      · exact fun e he => hdone e (List.mem_reverse.1 he)
      · next s'' hs'' => exact ih ((hs'.fetch ht).of_eq_ok hs'') hdone
    · next s' hs' =>
      have hs' : s'.Bare t := h.mustFetch.of_eq_ok hs'
      split
      · exact fun e he => hdone e (List.mem_reverse.1 he)
      · next e es hqueue =>
        have hes := hs'.queue
        rw [hqueue, List.forall_mem_cons] at hes
        exact ih ⟨hs'.within, hs'.flow, hs'.indent, hes.2⟩ (List.forall_mem_cons.2 ⟨hes.1, hdone⟩)

end Scanner

theorem Token.bare_scan {t : List Char} (ht : ∀ c ∈ t, isBlank c = true) :
    ∀ e ∈ (Token.scan t).items, e.kind.isBare = true := by
  refine Scanner.bare_run (s := Scanner.start t) ht _ ⟨Within.start t, rfl, rfl, ?_⟩
    fun e he => absurd he List.not_mem_nil
  intro e he
  rw [List.mem_singleton.1 he]
  rfl

/-! ## Events -/

namespace Event

/-- The events of a text without any signs. -/
def Kind.isBare : Kind → Bool
  | .streamStart | .streamEnd | .documentStart | .documentEnd | .scalar none none _ _ => true
  | _ => false

/-- The states outside all collections. -/
def State.isOutside : State → Bool
  | .streamStart | .implicitDocumentStart | .documentStart | .documentEnd | .blockNode | .done => true
  | _ => false

namespace Parser

variable {p : Parser}

/-- A parser outside all collections, with such tokens to come. -/
structure Bare (p : Parser) : Prop where
  tokens : ∀ e ∈ p.tokens, e.kind.isBare = true
  state : p.state.isOutside = true
  states : ∀ s ∈ p.states, s = .documentEnd

theorem Bare.peek (h : p.Bare) : Gives (fun _ => True) (fun e => e.kind.isBare = true) p.peek := by
  unfold Parser.peek
  split
  · next e es htokens => exact .of_ok (h.tokens e (by rw [htokens]; exact List.mem_cons_self))
  · exact .of_error trivial
  · exact .of_ok rfl

theorem Bare.advance (h : p.Bare) : p.advance.Bare :=
  ⟨fun e he => h.tokens e (List.mem_of_mem_tail he), h.state, h.states⟩

theorem Bare.ret (h : p.Bare) : p.ret.Bare := by
  have hstates := h.states
  unfold Parser.ret
  split
  · exact ⟨h.tokens, rfl, h.states⟩
  · next s ss hss =>
    rw [hss, List.forall_mem_cons] at hstates
    exact ⟨h.tokens, by rw [hstates.1]; rfl, hstates.2⟩

/-- Such tokens start no document of their own accord: the stream ends, or there is a fault. -/
theorem Bare.documentStart (h : p.Bare) :
    Gives (fun _ => True) (fun r => r.1.kind.isBare = true ∧ r.2.Bare) p.documentStart := by
  unfold Parser.documentStart
  refine .bind (P := Bare) ?_ fun p hp => ?_
  · unfold dropDocumentEnds
    refine .bind h.peek fun t ht => .ite (fun hend => ?_) fun _ => .of_pure h
    rw [eq_of_beq hend] at ht
    cases ht
  · refine .bind hp.peek fun t _ => ?_
    refine .ite (fun _ => .of_pure ⟨rfl, hp.advance.tokens, rfl, hp.states⟩) fun _ => ?_
    refine .bind (P := fun r : List (String × String) × Parser => r.2.Bare) ?_ ?_
    · unfold directives
      refine .bind hp.peek fun t ht => ?_
      split
      · next hkind => rw [hkind] at ht; cases ht
      · next hkind => rw [hkind] at ht; cases ht
      · next hkind => rw [hkind] at ht; cases ht
      · exact .of_pure hp
    · rintro ⟨handles, p⟩ hp
      refine .bind hp.peek fun u hu => .ite (fun hstart => ?_) fun _ => .of_error trivial
      rw [eq_of_beq hstart] at hu
      cases hu

theorem Bare.node (h : p.Bare) :
    Gives (fun _ => True) (fun r => r.1.kind.isBare = true ∧ r.2.Bare) (node true false p) := by
  unfold Parser.node
  refine .bind h.peek fun t ht => ?_
  split
  · next hkind => rw [hkind] at ht; cases ht
  · refine .bind (P := fun r : Properties × Parser =>
      r.1.anchor = none ∧ r.1.tag = none ∧ r.2.Bare) ?_ ?_
    · unfold properties
      refine .bind h.peek fun u hu => ?_
      split
      · next hkind => rw [hkind] at hu; cases hu
      · next hkind => rw [hkind] at hu; cases hu
      · exact .of_pure ⟨rfl, rfl, h⟩
    · rintro ⟨⟨anchor, tag, start, tagMark⟩, p⟩ ⟨rfl, rfl, hp⟩
      refine .bind (P := fun tag => tag = none) (.of_ok rfl) ?_
      rintro tag rfl
      refine .bind hp.peek fun u hu => ?_
      split
      · exact .of_pure ⟨rfl, hp.advance.ret⟩
      · next hkind => rw [hkind] at hu; cases hu
      · next hkind => rw [hkind] at hu; cases hu
      · refine .ite nofun fun _ => ?_
        refine .ite (fun hk => ?_) fun _ => ?_
        · rw [Bool.true_and] at hk
          rw [eq_of_beq hk] at hu
          cases hu
        refine .ite (fun hk => ?_) fun _ => ?_
        · rw [Bool.true_and] at hk
          rw [eq_of_beq hk] at hu
          cases hu
        exact .ite nofun fun _ => .of_error trivial

theorem Bare.step (h : p.Bare) :
    Gives (fun _ => True) (fun r => r.1.kind.isBare = true ∧ r.2.Bare) p.step := by
  have hstate := h.state
  unfold Parser.step
  cases hs : p.state with
  | streamStart =>
    exact .bind h.peek fun t _ => .of_pure ⟨rfl, h.advance.tokens, rfl, h.states⟩
  | implicitDocumentStart =>
    refine .bind h.peek fun t _ => ?_
    split
    · exact h.documentStart
    · exact h.documentStart
    · exact h.documentStart
    · exact .of_pure ⟨rfl, h.tokens, rfl, List.forall_mem_cons.2 ⟨rfl, h.states⟩⟩
  | documentStart => exact h.documentStart
  | documentEnd =>
    refine .bind h.peek fun t _ => .of_pure ⟨rfl, ?_⟩
    show Bare (Parser.goto (ite _ _ _) _)
    split
    · exact ⟨h.advance.tokens, rfl, h.states⟩
    · exact ⟨h.tokens, rfl, h.states⟩
  | blockNode => exact h.node
  | done => exact .of_ok ⟨rfl, h⟩
  | _ =>
    rw [hs] at hstate
    cases hstate

theorem bare_run (fuel : Nat) {done : List Event} (h : p.Bare)
    (hdone : ∀ e ∈ done, e.kind.isBare = true) : ∀ e ∈ (run fuel p done).items, e.kind.isBare = true := by
  induction fuel generalizing p done with
  | zero => exact fun e he => hdone e (List.mem_reverse.1 he)
  | succ fuel ih =>
    unfold run
    split
    · exact fun e he => hdone e (List.mem_reverse.1 he)
    · split
      · exact fun e he => hdone e (List.mem_reverse.1 he)
      · next e p' hstep =>
        obtain ⟨he, hp'⟩ := h.step.of_eq_ok hstep
        exact ih hp' (List.forall_mem_cons.2 ⟨he, hdone⟩)

end Parser

theorem bare_ofTokens {f : Feed Token} (h : ∀ e ∈ f.items, e.kind.isBare = true) :
    ∀ e ∈ (ofTokens f).items, e.kind.isBare = true :=
  Parser.bare_run _ ⟨h, rfl, fun _ hs => absurd hs List.not_mem_nil⟩
    fun _ he => absurd he List.not_mem_nil

end Event

/-! ## Values -/

/-- No text by itself asks for a collection. -/
theorem emptyCell?_tagOf (text : List Char) :
    Construction.emptyCell? (Scalar.tagOf text) = none := by
  have hall : ∀ tag ∈ [Tag.null, Tag.bool, Tag.float, Tag.int, Tag.merge, Tag.timestamp, Tag.value,
      Tag.sign, Tag.str], Construction.emptyCell? tag = none := by decide
  refine hall _ ?_
  unfold Scalar.tagOf
  simp only
  repeat' split
  all_goals simp

namespace Graph

variable {limits : Limits}

/-- No node has the tag of a collection. -/
def Bare (nodes : Array Node) : Prop :=
  ∀ (n : Nat) (node : Node), nodes[n]? = some node → Construction.emptyCell? node.tag = none

theorem Builder.gives_event_bare {b : Builder} (hb : Bare b.nodes) (hframes : b.frames = [])
    {e : Event} (he : e.kind.isBare = true) :
    Gives (fun _ => True) (fun b' => Bare b'.nodes ∧ b'.frames = []) (b.event limits e) := by
  unfold event
  split
  · next hkind => rw [hkind] at he; cases he
  · next anchor tag implicit text hkind =>
    rw [hkind] at he
    cases anchor with
    | some a => cases he
    | none =>
      cases tag with
      | some tag => cases he
      | none =>
        refine .of_pure ?_
        unfold attach
        simp only [hframes, and_true]
        intro n node hn
        rw [Array.getElem?_push] at hn
        split at hn
        · cases hn
          show Construction.emptyCell? (if implicit then Scalar.tagOf text else Tag.str) = none
          split
          · exact emptyCell?_tagOf text
          · decide
        · exact hb n node hn
  · next hkind => rw [hkind] at he; cases he
  · next hkind => rw [hkind] at he; cases he
  · next hkind => rw [hkind] at he; cases he
  · next hkind => rw [hkind] at he; cases he
  · exact .of_ok ⟨hb, hframes⟩

theorem gives_build_bare {fault : Option Fault} {b : Builder} (hb : Bare b.nodes)
    (hframes : b.frames = []) {es : List Event} (hes : ∀ e ∈ es, e.kind.isBare = true) :
    Gives (fun _ => True) (fun g? => ∀ g ∈ g?, Bare g.nodes) (build limits fault b es) := by
  have hroot : ∀ b : Builder, Bare b.nodes →
      ∀ g ∈ b.root.map fun r => (⟨b.nodes, r⟩ : Graph), Bare g.nodes := by
    intro b hb g hg
    obtain ⟨r, -, rfl⟩ := Option.map_eq_some_iff.1 hg
    exact hb
  induction es generalizing b with
  | nil =>
    unfold build
    split
    · exact .of_error trivial
    · exact .of_ok (hroot b hb)
  | cons e es ih =>
    obtain ⟨he, hes⟩ := List.forall_mem_cons.1 hes
    unfold build
    split
    · exact .of_ok (hroot b hb)
    · exact .ite (fun _ => .of_error trivial) fun _ => ih hb hframes hes
    · exact ih hb hframes hes
    · exact ih hb hframes hes
    · have hevent : Gives (fun _ => True) (fun b' => Bare b'.nodes ∧ b'.frames = [])
          (b.event limits e) := Builder.gives_event_bare hb hframes he
      split
      · next b' hb' =>
        obtain ⟨hb', hframes'⟩ := hevent.of_eq_ok hb'
        exact ih hb' hframes' hes
      · next f hf => rw [hf] at hevent; exact hevent.error

theorem gives_ofEvents_bare {f : Feed Event} (h : ∀ e ∈ f.items, e.kind.isBare = true) :
    Gives (fun _ => True) (fun g? => ∀ g ∈ g?, Bare g.nodes) (ofEvents limits f) := by
  refine gives_build_bare (fun n node hn => ?_) rfl h
  rw [Builder.empty, Array.getElem?_empty] at hn
  cases hn

end Graph

namespace Value

variable {limits : Limits}

theorem emptyCell?_bare {c : Construction} (hbare : Graph.Bare c.nodes) (n : Nat) :
    Construction.emptyCell? (c.node n).tag = none := by
  rw [Construction.node, Array.getD_eq_getD_getElem?]
  cases hnode : c.nodes[n]? with
  | none => decide
  | some node => exact hbare n node hnode

/-- Where no node has the tag of a collection, a visited node is a scalar and nothing waits. -/
theorem gives_visit_bare {c : Construction} (hbare : Graph.Bare c.nodes) {n : Nat}
    (hnew : c.cells.getD n none = none) (hqueue : c.queue = []) :
    Gives (fun _ => True)
      (fun r => r.2.queue = [] ∧ ∀ cell, r.2.cells[n]? = some (some cell) → ∃ s, cell = .scalar s)
      (c.visit limits n) := by
  unfold Construction.visit
  rw [hnew]
  simp only
  split
  · refine .bind (P := fun _ => True) .of_any fun text _ => ?_
    refine .bind (P := fun _ => True) .of_any fun s _ => .of_pure ⟨hqueue, ?_⟩
    intro cell hcell
    rw [Construction.setCell, Array.set!_eq_setIfInBounds, Array.getElem?_setIfInBounds_self] at hcell
    split at hcell
    · cases hcell
      exact ⟨s, rfl⟩
    · cases hcell
  · rw [emptyCell?_bare hbare]
    exact .of_error trivial

/-- A value whose root is a scalar, or has not been made, is no mapping. -/
theorem isMap_of_scalar {cells : Array (Option Cell)} {n : Nat}
    (h : ∀ cell, cells[n]? = some (some cell) → ∃ s, cell = .scalar s) :
    Value.isMap ⟨cells.map (·.getD (.scalar .null)), n⟩ = false := by
  have hcell : ∃ s, Value.cell ⟨cells.map (·.getD (.scalar .null)), n⟩ = .scalar s := by
    rw [Value.cell, Array.getD_eq_getD_getElem?, Array.getElem?_map]
    rcases hc : cells[n]? with - | - | made
    · exact ⟨.null, rfl⟩
    · exact ⟨.null, rfl⟩
    · exact h made hc
  obtain ⟨s, hs⟩ := hcell
  rw [isMap, entries?, hs]
  rfl

theorem gives_ofGraph_bare {g : Graph} (h : Graph.Bare g.nodes) :
    Gives (fun _ => True) (fun v => v.isMap = false) (ofGraph limits g) := by
  have hnone : (g.nodes.map fun _ => (none : Option Cell)).getD g.root none = none := by
    rw [Array.getD_eq_getD_getElem?, Array.getElem?_map]
    cases g.nodes[g.root]? <;> rfl
  unfold ofGraph
  refine .bind (gives_visit_bare h hnone rfl) ?_
  rintro ⟨_, c⟩ ⟨hqueue, hroot⟩
  refine .bind (P := fun c' => c' = c) ?_ ?_
  · unfold Construction.drain
    rw [hqueue]
    exact .of_ok rfl
  · rintro c' rfl
    exact .of_pure (isMap_of_scalar hroot)

/-- A text of blanks holds no mapping. -/
theorem isMap_of_allBlank {t : List Char} (h : Text.allBlank t = true) {v : Value}
    (hv : ofText limits t = .ok (some v)) : v.isMap = false := by
  have hgives : Gives (fun _ => True) (fun v? => ∀ v ∈ v?, v.isMap = false) (ofText limits t) := by
    unfold ofText
    split
    · exact .of_error trivial
    · refine .bind (Graph.gives_ofEvents_bare (Event.bare_ofTokens
        (Token.bare_scan (List.all_eq_true.1 h)))) fun g? hg? => ?_
      split
      · exact .of_pure nofun
      · next g =>
        refine .bind (gives_ofGraph_bare (hg? g rfl)) fun v hv => .of_pure ?_
        intro w hw
        cases hw
        exact hv
  exact hgives.of_eq_ok hv v rfl

end Value
end Yaml
end TalkDeck
