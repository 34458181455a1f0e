import TalkDeck.Proofs.Yaml.Tokens

/-
The events of a layout.

The parser reads a value from its tokens, whatever tokens follow, and comes back to the state it was
told to (`Emits`).  So the tokens of a block's text become the events of its fields, inside one
document (`ofTokens_text`).
-/

namespace TalkDeck
namespace Yaml

namespace Layout

mutual

/-- The kinds of the events of a layout. -/
def events : Layout → List Event.Kind
  | .scalar t => [.scalar none none true t]
  | .items xs => .sequenceStart none none :: (itemEvents xs ++ [.sequenceEnd])
  | .fields fs => .mappingStart none none :: (fieldEvents fs ++ [.mappingEnd])

def itemEvents : List (Dashed Layout) → List Event.Kind
  | [] => []
  | ⟨_, x⟩ :: xs => events x ++ itemEvents xs

def fieldEvents : List (Keyed Layout) → List Event.Kind
  | [] => []
  | ⟨key, _, v⟩ :: fs => .scalar none none true key :: (events v ++ fieldEvents fs)

end

/-- A value has at most one event more than tokens. -/
theorem length_events_le (v : Layout) : v.events.length ≤ v.kinds.length + 1 := by
  induction v using induct with
  | scalar t => simp [events]
  | items xs ih =>
    have hitems : (itemEvents xs).length ≤ (itemKinds xs).length := by
      induction xs with
      | nil => rfl
      | cons x xs ihx =>
        have hx := ih x List.mem_cons_self
        have hxs := ihx fun y hy => ih y (List.mem_cons_of_mem x hy)
        simp only [itemEvents, itemKinds, List.length_append, List.length_cons]
        omega
    simp only [events, kinds, List.length_cons, List.length_append, List.length_nil]
    omega
  | fields fs ih =>
    have hfields : (fieldEvents fs).length ≤ (fieldKinds fs).length := by
      induction fs with
      | nil => rfl
      | cons f fs ihf =>
        have hf := ih f List.mem_cons_self
        have hfs := ihf fun g hg => ih g (List.mem_cons_of_mem f hg)
        simp only [fieldEvents, fieldKinds, List.length_append, List.length_cons]
        omega
    simp only [events, kinds, List.length_cons, List.length_append, List.length_nil]
    omega

/-- The kinds of token a value opens with. -/
inductive Opener : Token.Kind → Prop where
  | scalar (t : List Char) : Opener (.scalar t true)
  | sequence : Opener .blockSequenceStart
  | mapping : Opener .blockMappingStart

theorem exists_opener {v : Layout} (h : v ≠ .scalar []) : ∃ k ks, v.kinds = k :: ks ∧ Opener k := by
  cases v with
  | scalar t =>
    have ht : t.isEmpty = false := by
      cases t with
      | nil => exact absurd rfl h
      | cons c t => rfl
    exact ⟨_, _, by rw [kinds, ht]; rfl, .scalar t⟩
  | items xs => exact ⟨_, _, by rw [kinds], .sequence⟩
  | fields fs => exact ⟨_, _, by rw [kinds], .mapping⟩

theorem kinds_nothing : kinds (.scalar []) = [] := by rw [kinds]; rfl

end Layout

namespace Event
namespace Parser

open Layout

/-! ## Single events -/

/-- The parser reports events of these kinds on its way to another state. -/
def Emits (p : Parser) (ks : List Event.Kind) (p' : Parser) : Prop :=
  ∃ es : List Event, es.map (·.kind) = ks ∧
    ∀ fuel done, run (es.length + fuel) p done = run fuel p' (es.reverse ++ done)

theorem Emits.trans {p₁ p₂ p₃ : Parser} {ks ls : List Event.Kind} (h : Emits p₁ ks p₂)
    (h' : Emits p₂ ls p₃) : Emits p₁ (ks ++ ls) p₃ := by
  obtain ⟨es, hes, hrun⟩ := h
  obtain ⟨es', hes', hrun'⟩ := h'
  refine ⟨es ++ es', by rw [List.map_append, hes, hes'], fun fuel done => ?_⟩
  rw [List.length_append, Nat.add_assoc, hrun, hrun', List.reverse_append, List.append_assoc]

theorem run_step {p p' : Parser} {e : Event} (hgoing : p.state ≠ .done) (hstep : p.step = .ok (e, p'))
    (fuel : Nat) (done : List Event) : run (fuel + 1) p done = run fuel p' (e :: done) := by
  rw [run, if_neg hgoing, hstep]

theorem Emits.of_step {p q : Parser} {e : Event} (hgoing : p.state ≠ .done)
    (hstep : p.step = .ok (e, q)) : Emits p [e.kind] q := by
  refine ⟨[e], rfl, fun fuel done => ?_⟩
  rw [List.length_singleton, Nat.add_comm, run_step hgoing hstep]
  rfl

section Node

variable {t : Token} {ts : List Token} {s s' : State} {ss : List State}
  {handles : List (String × String)} (block indentless : Bool)

theorem node_scalar {text : List Char} (ht : t.kind = .scalar text true) :
    node block indentless ⟨t :: ts, none, s, s' :: ss, handles⟩ =
      .ok (⟨.scalar none none true text, t.start⟩, ⟨ts, none, s', ss, handles⟩) := by
  simp [node, peek, ht, properties, resolveTag, advance, ret, bind, Except.bind, pure, Except.pure]

theorem node_sequence (ht : t.kind = .blockSequenceStart) :
    node true indentless ⟨t :: ts, none, s, s' :: ss, handles⟩ =
      .ok (⟨.sequenceStart none none, t.start⟩,
        ⟨t :: ts, none, .blockEntryFirst, s' :: ss, handles⟩) := by
  simp [node, peek, ht, properties, resolveTag, goto, bind, Except.bind, pure, Except.pure]

theorem node_mapping (ht : t.kind = .blockMappingStart) :
    node true indentless ⟨t :: ts, none, s, s' :: ss, handles⟩ =
      .ok (⟨.mappingStart none none, t.start⟩,
        ⟨t :: ts, none, .blockKeyFirst, s' :: ss, handles⟩) := by
  simp [node, peek, ht, properties, resolveTag, goto, bind, Except.bind, pure, Except.pure]

theorem content_value {ends : List Token.Kind} {read : Parser → Step} {sign : Token}
    (ht : ends.contains t.kind = false) :
    content ends s' read sign ⟨t :: ts, none, s, ss, handles⟩ =
      read ⟨t :: ts, none, s, s' :: ss, handles⟩ := by
  simp only [content, peek, ht, bind, Except.bind, Bool.false_eq_true, if_false]
  rfl

theorem content_nothing {ends : List Token.Kind} {read : Parser → Step} {sign : Token}
    (ht : ends.contains t.kind = true) :
    content ends s' read sign ⟨t :: ts, none, s, ss, handles⟩ =
      .ok (⟨.scalar none none true [], sign.stop⟩, ⟨t :: ts, none, s', ss, handles⟩) := by
  simp only [content, peek, ht, bind, Except.bind, if_true]
  rfl

end Node

/-! ## Values -/

/-- From the tokens of a layout the parser reports its events and goes on in the state called for,
whatever state the layout is read in. -/
def Parses (v : Layout) : Prop :=
  ∀ {p : Parser} {ts rest : List Token} {s s' : State} {ss : List State}
    {handles : List (String × String)} {indentless : Bool}, ts.map (·.kind) = v.kinds →
    p.state ≠ .done → p.step = node true indentless ⟨ts ++ rest, none, s, s' :: ss, handles⟩ →
    Emits p v.events ⟨rest, none, s', ss, handles⟩

/-- The value after a sign, which may be left out before the signs in `ends`. -/
theorem emits_content {v : Layout} (hv : v ≠ .scalar [] → Parses v) {ends : List Token.Kind}
    (hends : ∀ k, Opener k → ends.contains k = false) {p : Parser} {ts rest : List Token}
    {u : Token} {s s' : State} {ss : List State} {handles : List (String × String)}
    {indentless : Bool} {sign : Token} (hts : ts.map (·.kind) = v.kinds)
    (hu : ends.contains u.kind = true) (hgoing : p.state ≠ .done)
    (hstep : p.step = content ends s' (node true indentless) sign
      ⟨ts ++ u :: rest, none, s, ss, handles⟩) :
    Emits p v.events ⟨u :: rest, none, s', ss, handles⟩ := by
  by_cases hnone : v = .scalar []
  · subst hnone
    rw [kinds_nothing, List.map_eq_nil_iff] at hts
    subst hts
    rw [List.nil_append, content_nothing hu] at hstep
    rw [events]
    exact Emits.of_step hgoing hstep
  · obtain ⟨k, ks, hkinds, hopener⟩ := exists_opener hnone
    obtain ⟨t, ts', rfl, ht, -⟩ := List.map_eq_cons_iff.mp (hts.trans hkinds)
    rw [List.cons_append, content_value (by rw [ht]; exact hends k hopener)] at hstep
    exact hv hnone hts hgoing hstep

theorem exists_itemKinds_end (xs : List (Dashed Layout)) :
    ∃ k ks, itemKinds xs ++ [.blockEnd] = k :: ks ∧
      [Token.Kind.blockEntry, .blockEnd].contains k = true := by
  cases xs with
  | nil => exact ⟨_, _, by rw [itemKinds]; rfl, by decide⟩
  | cons x xs => exact ⟨_, _, by rw [itemKinds]; rfl, by decide⟩

theorem exists_fieldKinds_end (fs : List (Keyed Layout)) :
    ∃ k ks, fieldKinds fs ++ [.blockEnd] = k :: ks ∧
      [Token.Kind.key, .value, .blockEnd].contains k = true := by
  cases fs with
  | nil => exact ⟨_, _, by rw [fieldKinds]; rfl, by decide⟩
  | cons f fs => exact ⟨_, _, by rw [fieldKinds]; rfl, by decide⟩

/-- The key of a field, which is never left out. -/
theorem emits_key {t k : Token} {key : List Char} (ht : t.kind = .key)
    (hk : k.kind = .scalar key true) {p : Parser} {ts : List Token} {s s' : State} {ss : List State}
    {handles : List (String × String)} (hgoing : p.state ≠ .done)
    (hstep : p.step = blockKey ⟨t :: k :: ts, none, s, s' :: ss, handles⟩) :
    Emits p [.scalar none none true key] ⟨ts, none, .blockValue, s' :: ss, handles⟩ := by
  refine Emits.of_step (e := ⟨.scalar none none true key, k.start⟩) hgoing ?_
  have hopen : p.step = content [.key, .value, .blockEnd] .blockValue (node true true) t
      ⟨k :: ts, none, s, s' :: ss, handles⟩ := by
    rw [hstep]
    simp [blockKey, peek, ht, advance, bind, Except.bind]
  rw [hopen, content_value (by rw [hk]; rfl), node_scalar true true hk]

theorem emits_items {xs : List (Dashed Layout)}
    (hxs : ∀ x ∈ xs, x.value ≠ .scalar [] → Parses x.value) {p : Parser} {ts rest : List Token}
    {s s' : State} {ss : List State} {handles : List (String × String)}
    (hts : ts.map (·.kind) = itemKinds xs ++ [.blockEnd]) (hgoing : p.state ≠ .done)
    (hstep : p.step = blockEntry ⟨ts ++ rest, none, s, s' :: ss, handles⟩) :
    Emits p (itemEvents xs ++ [.sequenceEnd]) ⟨rest, none, s', ss, handles⟩ := by
  induction xs generalizing p ts s with
  | nil =>
    obtain ⟨t, ts, rfl, ht, hnil⟩ := List.map_eq_cons_iff.mp hts
    obtain rfl := List.map_eq_nil_iff.mp hnil
    rw [itemEvents, List.nil_append]
    refine Emits.of_step (e := ⟨.sequenceEnd, t.start⟩) hgoing ?_
    rw [hstep]
    simp [blockEntry, peek, ht, advance, ret, bind, Except.bind, pure, Except.pure]
  | cons x xs ih =>
    obtain ⟨gap, x⟩ := x
    rw [itemKinds, List.cons_append, List.append_assoc] at hts
    obtain ⟨t, ts, rfl, ht, hts⟩ := List.map_eq_cons_iff.mp hts
    obtain ⟨as, bs, rfl, has, hbs⟩ := List.map_eq_append_iff.mp hts
    obtain ⟨k, ks, hkinds, hends⟩ := exists_itemKinds_end xs
    obtain ⟨u, us, rfl, hu, -⟩ := List.map_eq_cons_iff.mp (hbs.trans hkinds)
    rw [← hu] at hends
    have hcontent : p.step = content [.blockEntry, .blockEnd] .blockEntry (node true false) t
        ⟨as ++ u :: (us ++ rest), none, s, s' :: ss, handles⟩ := by
      rw [hstep]
      simp [blockEntry, peek, ht, advance, bind, Except.bind]
    have hfirst := emits_content (hxs _ List.mem_cons_self)
      (fun k hk => by cases hk <;> rfl) has hends hgoing hcontent
    have hrest := ih (fun y hy => hxs y (List.mem_cons_of_mem _ hy)) hbs
      (p := ⟨u :: (us ++ rest), none, .blockEntry, s' :: ss, handles⟩) (by simp) rfl
    rw [itemEvents, List.append_assoc]
    exact hfirst.trans hrest

theorem emits_fields {fs : List (Keyed Layout)}
    (hfs : ∀ f ∈ fs, f.value ≠ .scalar [] → Parses f.value) {p : Parser} {ts rest : List Token}
    {s s' : State} {ss : List State} {handles : List (String × String)}
    (hts : ts.map (·.kind) = fieldKinds fs ++ [.blockEnd]) (hgoing : p.state ≠ .done)
    (hstep : p.step = blockKey ⟨ts ++ rest, none, s, s' :: ss, handles⟩) :
    Emits p (fieldEvents fs ++ [.mappingEnd]) ⟨rest, none, s', ss, handles⟩ := by
  induction fs generalizing p ts s with
  | nil =>
    obtain ⟨t, ts, rfl, ht, hnil⟩ := List.map_eq_cons_iff.mp hts
    obtain rfl := List.map_eq_nil_iff.mp hnil
    rw [fieldEvents, List.nil_append]
    refine Emits.of_step (e := ⟨.mappingEnd, t.start⟩) hgoing ?_
    rw [hstep]
    simp [blockKey, peek, ht, advance, ret, bind, Except.bind, pure, Except.pure]
  | cons f fs ih =>
    obtain ⟨key, gap, v⟩ := f
    rw [fieldKinds, List.cons_append, List.cons_append, List.cons_append, List.append_assoc] at hts
    obtain ⟨t, ts, rfl, ht, hts⟩ := List.map_eq_cons_iff.mp hts
    obtain ⟨k, ts, rfl, hk, hts⟩ := List.map_eq_cons_iff.mp hts
    obtain ⟨c, ts, rfl, hc, hts⟩ := List.map_eq_cons_iff.mp hts
    obtain ⟨as, bs, rfl, has, hbs⟩ := List.map_eq_append_iff.mp hts
    obtain ⟨l, ls, hkinds, hends⟩ := exists_fieldKinds_end fs
    obtain ⟨u, us, rfl, hu, -⟩ := List.map_eq_cons_iff.mp (hbs.trans hkinds)
    rw [← hu] at hends
    have hopen : p.step =
        blockKey ⟨t :: k :: c :: (as ++ u :: (us ++ rest)), none, s, s' :: ss, handles⟩ := by
      rw [hstep]
      simp
    have hkey := emits_key ht hk hgoing hopen
    have hcontent : step ⟨c :: (as ++ u :: (us ++ rest)), none, .blockValue, s' :: ss, handles⟩ =
        content [.key, .value, .blockEnd] .blockKey (node true true) c
          ⟨as ++ u :: (us ++ rest), none, .blockValue, s' :: ss, handles⟩ := by
      simp [step, blockValue, peek, hc, advance, bind, Except.bind]
    have hvalue := emits_content (hfs _ List.mem_cons_self)
      (fun k hk => by cases hk <;> rfl) has hends (by simp) hcontent
    have hrest := ih (fun g hg => hfs g (List.mem_cons_of_mem _ hg)) hbs
      (p := ⟨u :: (us ++ rest), none, .blockKey, s' :: ss, handles⟩) (by simp) rfl
    rw [fieldEvents, List.cons_append, List.append_assoc]
    exact hkey.trans (hvalue.trans hrest)

theorem parses (v : Layout) (h : v ≠ .scalar []) : Parses v := by
  induction v using Layout.induct with
  | scalar t =>
    intro p ts rest s s' ss handles indentless hts hgoing hstep
    have ht : t.isEmpty = false := by
      cases t with
      | nil => exact absurd rfl h
      | cons c t => rfl
    rw [kinds, ht] at hts
    obtain ⟨u, us, rfl, hu, hnil⟩ := List.map_eq_cons_iff.mp hts
    obtain rfl := List.map_eq_nil_iff.mp hnil
    rw [List.singleton_append, node_scalar true indentless hu] at hstep
    rw [events]
    exact Emits.of_step hgoing hstep
  | items xs ih =>
    intro p ts rest s s' ss handles indentless hts hgoing hstep
    rw [kinds] at hts
    obtain ⟨t, ts, rfl, ht, hts⟩ := List.map_eq_cons_iff.mp hts
    rw [List.cons_append, node_sequence indentless ht] at hstep
    have hrest := emits_items (p := ⟨t :: (ts ++ rest), none, .blockEntryFirst, s' :: ss, handles⟩)
      (s := .blockEntryFirst) (fun x hx hne => ih x hx hne) hts (by simp) rfl
    rw [events]
    exact (Emits.of_step hgoing hstep).trans hrest
  | fields fs ih =>
    intro p ts rest s s' ss handles indentless hts hgoing hstep
    rw [kinds] at hts
    obtain ⟨t, ts, rfl, ht, hts⟩ := List.map_eq_cons_iff.mp hts
    rw [List.cons_append, node_mapping indentless ht] at hstep
    have hrest := emits_fields (p := ⟨t :: (ts ++ rest), none, .blockKeyFirst, s' :: ss, handles⟩)
      (s := .blockKeyFirst) (fun f hf hne => ih f hf hne) hts (by simp) rfl
    rw [events]
    exact (Emits.of_step hgoing hstep).trans hrest

end Parser

/-- The events of a block's text. -/
theorem ofTokens_text {fs : List (Keyed Layout)} {ts : List Token}
    (hts : ts.map (·.kind) = .streamStart :: (Layout.kinds (.fields fs) ++ [.streamEnd])) :
    ∃ es : List Event, Event.ofTokens ⟨ts, none⟩ = ⟨es, none⟩ ∧
      es.map (·.kind) = [.streamStart, .documentStart] ++ Layout.events (.fields fs) ++
        [.documentEnd, .streamEnd] := by
  obtain ⟨t, ts, rfl, ht, hts⟩ := List.map_eq_cons_iff.mp hts
  obtain ⟨us, vs, rfl, hus, hvs⟩ := List.map_eq_append_iff.mp hts
  obtain ⟨z, vs, rfl, hz, hnil⟩ := List.map_eq_cons_iff.mp hvs
  obtain rfl := List.map_eq_nil_iff.mp hnil
  obtain ⟨u, us, rfl, hu, -⟩ := List.map_eq_cons_iff.mp (hus.trans (by rw [Layout.kinds]))
  have hopen : Parser.Emits ⟨t :: (u :: us ++ [z]), none, .streamStart, [], Parser.standardHandles⟩
      [.streamStart, .documentStart]
      ⟨u :: us ++ [z], none, .blockNode, [.documentEnd], Parser.standardHandles⟩ := by
    refine (Parser.Emits.of_step (e := ⟨.streamStart, t.start⟩) (by simp)
      (q := ⟨u :: us ++ [z], none, .implicitDocumentStart, [], Parser.standardHandles⟩) ?_).trans
      (Parser.Emits.of_step (e := ⟨.documentStart, u.start⟩) (by simp) ?_)
    · simp [Parser.step, Parser.peek, Parser.advance, Parser.goto, bind, Except.bind, pure, Except.pure]
    · simp [Parser.step, Parser.peek, hu, bind, Except.bind, pure, Except.pure]
  have hvalue := Parser.parses (.fields fs) (by simp) (s := .blockNode)
    (p := ⟨u :: us ++ [z], none, .blockNode, [.documentEnd], Parser.standardHandles⟩) hus (by simp) rfl
  have hclose : Parser.Emits ⟨[z], none, .documentEnd, [], Parser.standardHandles⟩
      [.documentEnd, .streamEnd] ⟨[], none, .done, [], Parser.standardHandles⟩ := by
    refine (Parser.Emits.of_step (e := ⟨.documentEnd, z.start⟩) (by simp)
      (q := ⟨[z], none, .documentStart, [], Parser.standardHandles⟩) ?_).trans
      (Parser.Emits.of_step (e := ⟨.streamEnd, z.start⟩) (by simp) ?_)
    · simp [Parser.step, Parser.peek, hz, Parser.goto, bind, Except.bind, pure, Except.pure]
    · simp [Parser.step, Parser.documentStart, Parser.dropDocumentEnds, Parser.peek, hz, Parser.advance,
        Parser.goto, bind, Except.bind, pure, Except.pure]
  obtain ⟨es, hes, hrun⟩ := (hopen.trans hvalue).trans hclose
  refine ⟨es, ?_, hes⟩
  have hlength : es.length ≤ 4 * (t :: (u :: us ++ [z])).length + 16 := by
    have hle := Layout.length_events_le (.fields fs)
    have hes' := congrArg List.length hes
    have hus' := congrArg List.length hus
    simp only [List.length_map, List.length_append, List.length_cons, List.length_nil] at hes' hus' ⊢
    omega
  obtain ⟨fuel, hfuel⟩ := Nat.exists_eq_add_of_le hlength
  rw [Event.ofTokens, hfuel, hrun]
  cases fuel <;> simp [Parser.run]

end Event
end Yaml
end TalkDeck
