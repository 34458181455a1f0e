import TalkDeck.Proofs.Yaml.Outcome
import TalkDeck.Yaml.Event

/-
The parser passes on the fault that ended its tokens and makes only faults of form itself, at the
marks of the tokens: events have their marks in the text where the tokens have, and whatever stops them
for good stopped the tokens (`Event.gives_ofTokens`).
-/

namespace TalkDeck
namespace Yaml

theorem Marks.getD {t : List Char} {o : Option Mark} {m : Mark} (ho : ∀ m ∈ o, Marks t m)
    (hm : Marks t m) : Marks t (o.getD m) := by
  cases o with
  | none => exact hm
  | some m' => exact ho m' rfl

namespace Event
namespace Parser

variable {t : List Char} {R : Prop} {p : Parser}

/-- The tokens to come have their marks in the text, and the fault that ends them is one of the text. -/
structure Placed (t : List Char) (R : Prop) (p : Parser) : Prop where
  tokens : ∀ k ∈ p.tokens, k.Placed t
  fault : ∀ f, p.fault = some f → From t R f

namespace Placed

theorem advance (h : p.Placed t R) : p.advance.Placed t R :=
  ⟨fun k hk => h.tokens k (List.mem_of_mem_tail hk), h.fault⟩

theorem goto (h : p.Placed t R) (s : State) : (p.goto s).Placed t R := ⟨h.tokens, h.fault⟩

theorem call (h : p.Placed t R) (s : State) : (p.call s).Placed t R := ⟨h.tokens, h.fault⟩

theorem ret (h : p.Placed t R) : p.ret.Placed t R := by
  unfold Parser.ret
  split
  · exact ⟨h.tokens, h.fault⟩
  · exact ⟨h.tokens, h.fault⟩

end Placed

/-- What a step leaves: an event with a mark of the text, and the parser. -/
structure Stepped (t : List Char) (R : Prop) (r : Event × Parser) : Prop where
  start : Marks t r.1.start
  parser : r.2.Placed t R

theorem gives_peek (h : p.Placed t R) : Gives (From t R) (Token.Placed t) p.peek := by
  unfold peek
  split
  · next k ks htokens => exact .of_ok (h.tokens k (by rw [htokens]; exact List.mem_cons_self))
  · next f _ hf => exact .of_error (h.fault f hf)
  · exact .of_ok ⟨Marks.start t, Marks.start t⟩

theorem gives_failAt {α : Type} {P : α → Prop} {problem : Problem} {k : Token} (hk : k.Placed t) :
    Gives (From t R) P (failAt problem k) :=
  .of_error hk.start

theorem gives_empty (h : p.Placed t R) {m : Mark} (hm : Marks t m) :
    Gives (From t R) (Stepped t R) (empty m p) :=
  .of_ok ⟨hm, h⟩

/-! ## Nodes -/

/-- The marks of an anchor and a tag are the text's. -/
structure Properties.Placed (t : List Char) (q : Properties) : Prop where
  start : ∀ m ∈ q.start, Marks t m
  tagMark : ∀ m ∈ q.tagMark, Marks t m

theorem gives_properties (h : p.Placed t R) :
    Gives (From t R) (fun r => r.1.Placed t ∧ r.2.Placed t R) p.properties := by
  have hsome : ∀ {m : Mark}, Marks t m → ∀ m' ∈ some m, Marks t m' :=
    fun hm _ hm' => Option.some.inj hm' ▸ hm
  unfold properties
  refine .bind (gives_peek h) fun k hk => ?_
  split
  · refine .bind (gives_peek h.advance) fun u hu => ?_
    split
    · exact .of_pure ⟨⟨hsome hk.start, hsome hu.start⟩, h.advance.advance⟩
    · exact .of_pure ⟨⟨hsome hk.start, nofun⟩, h.advance⟩
  · refine .bind (gives_peek h.advance) fun u _ => ?_
    split
    · exact .of_pure ⟨⟨hsome hk.start, hsome hk.start⟩, h.advance.advance⟩
    · exact .of_pure ⟨⟨hsome hk.start, hsome hk.start⟩, h.advance⟩
  · exact .of_pure ⟨⟨nofun, nofun⟩, h⟩

theorem gives_resolveTag {q : Properties} (hq : q.Placed t) :
    Gives (From t R) (fun _ => True) (p.resolveTag q) := by
  unfold resolveTag
  split
  · exact .of_ok trivial
  · exact .of_ok trivial
  · split
    · exact .of_ok trivial
    · exact .of_error (.getD hq.tagMark (Marks.start t))

theorem gives_node (h : p.Placed t R) (block indentless : Bool) :
    Gives (From t R) (Stepped t R) (node block indentless p) := by
  unfold node
  refine .bind (gives_peek h) fun k hk => ?_
  split
  · exact .of_pure ⟨hk.start, h.advance.ret⟩
  · refine .bind (gives_properties h) ?_
    rintro ⟨q, p⟩ ⟨hq, hp⟩
    refine .bind (gives_resolveTag hq) fun tag _ => ?_
    refine .bind (gives_peek hp) fun u hu => ?_
    have hstart : Marks t (q.start.getD u.start) := .getD hq.start hu.start
    split
    · exact .of_pure ⟨hstart, hp.advance.ret⟩
    · exact .of_ok ⟨hstart, hp.goto _⟩
    · exact .of_ok ⟨hstart, hp.goto _⟩
    · refine .ite (fun _ => .of_ok ⟨hstart, hp.goto _⟩) fun _ => ?_
      refine .ite (fun _ => .of_ok ⟨hstart, hp.goto _⟩) fun _ => ?_
      refine .ite (fun _ => .of_ok ⟨hstart, hp.goto _⟩) fun _ => ?_
      refine .ite (fun _ => .of_pure ⟨hstart, hp.ret⟩) fun _ => ?_
      exact gives_failAt hu

theorem gives_content (h : p.Placed t R) {ends : List Token.Kind} {next : State}
    {read : Parser → Step} {sign : Token} (hsign : sign.Placed t)
    (hread : ∀ p : Parser, p.Placed t R → Gives (From t R) (Stepped t R) (read p)) :
    Gives (From t R) (Stepped t R) (content ends next read sign p) := by
  unfold content
  refine .bind (gives_peek h) fun k _ => ?_
  exact .ite (fun _ => gives_empty (h.goto _) hsign.stop) fun _ => hread _ (h.call _)

/-! ## Documents -/

theorem gives_directives (h : p.Placed t R) (fuel : Nat) (versioned : Bool)
    (handles : List (String × String)) :
    Gives (From t R) (fun r => r.2.Placed t R) (directives fuel versioned handles p) := by
  induction fuel generalizing p versioned handles with
  | zero => exact .of_ok h
  | succ fuel ih =>
    unfold directives
    refine .bind (gives_peek h) fun k hk => ?_
    split
    · refine .ite (fun _ => gives_failAt hk) fun _ => ?_
      exact .ite (fun _ => gives_failAt hk) fun _ => ih h.advance _ _
    · exact .ite (fun _ => gives_failAt hk) fun _ => ih h.advance _ _
    · exact ih h.advance _ _
    · exact .of_pure h

theorem gives_dropDocumentEnds (h : p.Placed t R) (fuel : Nat) :
    Gives (From t R) (Placed t R) (dropDocumentEnds fuel p) := by
  induction fuel generalizing p with
  | zero => exact .of_ok h
  | succ fuel ih =>
    unfold dropDocumentEnds
    refine .bind (gives_peek h) fun k _ => ?_
    exact .ite (fun _ => ih h.advance) fun _ => .of_pure h

theorem gives_documentStart (h : p.Placed t R) :
    Gives (From t R) (Stepped t R) (documentStart p) := by
  unfold documentStart
  refine .bind (gives_dropDocumentEnds h _) fun p hp => ?_
  refine .bind (gives_peek hp) fun k hk => ?_
  refine .ite (fun _ => .of_pure ⟨hk.start, hp.advance.goto _⟩) fun _ => ?_
  refine .bind (gives_directives hp _ _ _) ?_
  rintro ⟨handles, p⟩ hp
  refine .bind (gives_peek hp) fun u hu => ?_
  refine .ite (fun _ => .of_pure ⟨hk.start, ?_⟩) fun _ => gives_failAt hu
  exact ⟨hp.advance.tokens, hp.fault⟩

/-! ## Collections -/

theorem gives_blockEntry (h : p.Placed t R) : Gives (From t R) (Stepped t R) (blockEntry p) := by
  unfold blockEntry
  refine .bind (gives_peek h) fun k hk => ?_
  split
  · exact gives_content h.advance hk fun _ hp => gives_node hp _ _
  · exact .of_pure ⟨hk.start, h.advance.ret⟩
  · exact gives_failAt hk

theorem gives_indentlessEntry (h : p.Placed t R) :
    Gives (From t R) (Stepped t R) (indentlessEntry p) := by
  unfold indentlessEntry
  refine .bind (gives_peek h) fun k hk => ?_
  split
  · exact gives_content h.advance hk fun _ hp => gives_node hp _ _
  · exact .of_pure ⟨hk.start, h.ret⟩

theorem gives_blockKey (h : p.Placed t R) : Gives (From t R) (Stepped t R) (blockKey p) := by
  unfold blockKey
  refine .bind (gives_peek h) fun k hk => ?_
  split
  · exact gives_content h.advance hk fun _ hp => gives_node hp _ _
  · exact .of_pure ⟨hk.start, h.advance.ret⟩
  · exact gives_failAt hk

theorem gives_blockValue (h : p.Placed t R) : Gives (From t R) (Stepped t R) (blockValue p) := by
  unfold blockValue
  refine .bind (gives_peek h) fun k hk => ?_
  split
  · exact gives_content h.advance hk fun _ hp => gives_node hp _ _
  · exact gives_empty (h.goto _) hk.start

theorem gives_flowItem (h : p.Placed t R) : Gives (From t R) (Stepped t R) (flowItem p) := by
  unfold flowItem
  refine .bind (gives_peek h) fun k hk => ?_
  split
  · exact .of_pure ⟨hk.start, h.goto _⟩
  · exact .of_pure ⟨hk.start, h.advance.ret⟩
  · exact gives_node (h.call _) _ _

theorem gives_flowEntry (h : p.Placed t R) (first : Bool) :
    Gives (From t R) (Stepped t R) (flowEntry first p) := by
  unfold flowEntry
  refine .bind (gives_peek h) fun k hk => ?_
  split
  · exact .of_pure ⟨hk.start, h.advance.ret⟩
  · exact .ite (fun _ => gives_flowItem h) fun _ => gives_flowItem h.advance
  · exact .ite (fun _ => gives_flowItem h) fun _ => gives_failAt hk

theorem gives_flowPairKey (h : p.Placed t R) : Gives (From t R) (Stepped t R) (flowPairKey p) :=
  .bind (gives_peek h) fun _ hk => gives_content h.advance hk fun _ hp => gives_node hp _ _

theorem gives_flowPairValue (h : p.Placed t R) : Gives (From t R) (Stepped t R) (flowPairValue p) := by
  unfold flowPairValue
  refine .bind (gives_peek h) fun k hk => ?_
  split
  · exact gives_content h.advance hk fun _ hp => gives_node hp _ _
  · exact gives_empty (h.goto _) hk.start

theorem gives_flowPairEnd (h : p.Placed t R) : Gives (From t R) (Stepped t R) (flowPairEnd p) :=
  .bind (gives_peek h) fun _ hk => .of_pure ⟨hk.start, h.goto _⟩

theorem gives_flowMember (h : p.Placed t R) : Gives (From t R) (Stepped t R) (flowMember p) := by
  unfold flowMember
  refine .bind (gives_peek h) fun k hk => ?_
  split
  · exact gives_content h.advance hk fun _ hp => gives_node hp _ _
  · exact .of_pure ⟨hk.start, h.advance.ret⟩
  · exact gives_node (h.call _) _ _

theorem gives_flowKey (h : p.Placed t R) (first : Bool) :
    Gives (From t R) (Stepped t R) (flowKey first p) := by
  unfold flowKey
  refine .bind (gives_peek h) fun k hk => ?_
  split
  · exact .of_pure ⟨hk.start, h.advance.ret⟩
  · exact .ite (fun _ => gives_flowMember h) fun _ => gives_flowMember h.advance
  · exact .ite (fun _ => gives_flowMember h) fun _ => gives_failAt hk

theorem gives_flowValue (h : p.Placed t R) : Gives (From t R) (Stepped t R) (flowValue p) := by
  unfold flowValue
  refine .bind (gives_peek h) fun k hk => ?_
  split
  · exact gives_content h.advance hk fun _ hp => gives_node hp _ _
  · exact gives_empty (h.goto _) hk.start

/-! ## Steps and runs -/

theorem gives_step (h : p.Placed t R) : Gives (From t R) (Stepped t R) p.step := by
  unfold step
  cases p.state with
  | streamStart => exact .bind (gives_peek h) fun k hk => .of_pure ⟨hk.start, h.advance.goto _⟩
  | implicitDocumentStart =>
    refine .bind (gives_peek h) fun k hk => ?_
    split
    · exact gives_documentStart h
    · exact gives_documentStart h
    · exact gives_documentStart h
    · exact .of_pure ⟨hk.start, h.tokens, h.fault⟩
  | documentStart => exact gives_documentStart h
  | documentContent =>
    refine .bind (gives_peek h) fun k hk => ?_
    split
    · exact gives_empty h.ret hk.start
    · exact gives_empty h.ret hk.start
    · exact gives_empty h.ret hk.start
    · exact gives_empty h.ret hk.start
    · exact gives_node h _ _
  | documentEnd =>
    refine .bind (gives_peek h) fun k hk => .of_pure ⟨hk.start, ?_⟩
    show Placed t R (Parser.goto (ite _ _ _) _)
    split
    · exact h.advance.goto _
    · exact h.goto _
  | blockNode => exact gives_node h _ _
  | blockEntryFirst => exact gives_blockEntry h.advance
  | blockEntry => exact gives_blockEntry h
  | indentlessEntry => exact gives_indentlessEntry h
  | blockKeyFirst => exact gives_blockKey h.advance
  | blockKey => exact gives_blockKey h
  | blockValue => exact gives_blockValue h
  | flowEntryFirst => exact gives_flowEntry h.advance _
  | flowEntry => exact gives_flowEntry h _
  | flowPairKey => exact gives_flowPairKey h
  | flowPairValue => exact gives_flowPairValue h
  | flowPairEnd => exact gives_flowPairEnd h
  | flowKeyFirst => exact gives_flowKey h.advance _
  | flowKey => exact gives_flowKey h _
  | flowValue => exact gives_flowValue h
  | flowEmptyValue => exact .bind (gives_peek h) fun k hk => gives_empty (h.goto _) hk.start
  | done => exact .of_ok ⟨Marks.start t, h⟩

theorem gives_run (h : p.Placed t R) (fuel : Nat) {done : List Event}
    (hdone : ∀ e ∈ done, Marks t e.start) :
    (run fuel p done).Gives (From t R) (Marks t ·.start) := by
  induction fuel generalizing p done with
  | zero => exact .of_none hdone
  | succ fuel ih =>
    unfold run
    split
    · exact .of_none hdone
    · split
      · next f hf => exact .of_error hdone (gives_step h) hf
      · next e p' hp' =>
        have hstep : Stepped t R (e, p') := (gives_step h).of_eq_ok hp'
        exact ih hstep.parser (List.forall_mem_cons.mpr ⟨hstep.start, hdone⟩)

end Parser

/-- Events have their marks where the tokens have, and what stops them for good stopped the tokens. -/
theorem gives_ofTokens {t : List Char} {R : Prop} {f : Feed Token}
    (h : f.Gives (From t R) (Token.Placed t)) : (ofTokens f).Gives (From t R) (Marks t ·.start) :=
  Parser.gives_run (p := ⟨f.items, f.fault, .streamStart, [], Parser.standardHandles⟩)
    ⟨h.items, h.fault⟩ _ fun _ he => absurd he List.not_mem_nil

end Event
end Yaml
end TalkDeck
