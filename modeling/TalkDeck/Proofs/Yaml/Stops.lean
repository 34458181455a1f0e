import TalkDeck.Proofs.Yaml.Forward
import TalkDeck.Proofs.Yaml.Passing
import TalkDeck.Proofs.Yaml.Scalars
import TalkDeck.Yaml.Value

/-
Which texts may stop the reading of a document.  Everything that stops it is there to see: an escape
beyond 31 bits, a scalar tagged as a truth value, a number or a timestamp that does not look like
one, a mapping so tagged, or a plain number in sixties with too many places (`mayStop`).  Any other
text has a value or a fault of its own, and the mark of a fault is one of the text
(`Value.gives_ofText`).

Construction changes the graph as it goes: merging gives mappings other pairs, and value keys turn
into text.  The invariant is told by the nodes with a tag that can stop the document: they are no
mappings, so they stay as the events left them.
-/

namespace TalkDeck
namespace Yaml

/-! ## Construction -/

/-- A node on which reading stops with the reason `R` only.  A loose one has no tag that stops it,
whatever becomes of its content; any other keeps its content, which is no mapping. -/
structure Node.Kept (t : List Char) (R loose : Prop) (node : Node) : Prop where
  mark : Marks t node.mark
  tag : loose → node.tag ∈ strictTags → R
  mapping : ¬loose → ∀ pairs, node.content ≠ .mapping pairs
  scalar : ¬loose → ∀ text, node.content = .scalar text → Scalar.stops node.tag text = true → R

namespace Construction

variable {limits : Limits} {t : List Char} {R : Prop} {loose : Nat → Prop} {c : Construction} {n : Nat}

/-- Every node is kept. -/
def Kept (t : List Char) (R : Prop) (loose : Nat → Prop) (c : Construction) : Prop :=
  ∀ n (node : Node), c.nodes[n]? = some node → node.Kept t R (loose n)

theorem Kept.node (h : c.Kept t R loose) (n : Nat) : (c.node n).Kept t R (loose n) := by
  unfold Construction.node
  rw [Array.getD_eq_getD_getElem?]
  cases hn : c.nodes[n]? with
  | some node => exact h n node hn
  | none =>
    have hnull : Tag.null ∉ strictTags := by decide
    exact ⟨Marks.start t, fun _ htag => absurd htag hnull, fun _ _ => nofun,
      fun _ _ _ hstops => absurd (Scalar.mem_of_stops hstops) hnull⟩

theorem Kept.gives_fail {α : Type} {P : α → Prop} {problem : Problem} (h : c.Kept t R loose) (n : Nat) :
    Gives (From t R) P (Construction.fail problem (c.node n)) :=
  .of_error (h.node n).mark

theorem gives_textOf (h : c.Kept t R loose) (fuel n : Nat) :
    Gives (From t R) (fun text => (∃ pairs, (c.node n).content = .mapping pairs) ∨
      (c.node n).content = .scalar text) (c.textOf fuel n) := by
  induction fuel generalizing n with
  | zero => exact .of_error trivial
  | succ fuel ih =>
    unfold textOf
    split
    · next text htext => exact .of_ok (.inr htext)
    · exact h.gives_fail n
    · next pairs hpairs =>
      split
      · exact (ih _).mono fun _ _ => .inl ⟨pairs, hpairs⟩
      · exact h.gives_fail n

theorem gives_read {node : Node} {text : List Char} {read : Node → List Char → Except Fault Scalar}
    (hread : scalarReader? node.tag = some read) (hmark : Marks t node.mark)
    (hcontent : node.tag ∈ strictTags → R ∨ node.content = .scalar text)
    (hstops : Scalar.stops node.tag text = true → R) :
    Gives (From t R) (fun _ => True) (read node text) := by
  unfold scalarReader? at hread
  split at hread
  · cases hread
    exact .of_ok trivial
  split at hread
  · cases hread
    exact .of_ok trivial
  split at hread
  · next htag =>
    cases hread
    rw [htag] at hstops
    exact .map (Scalar.gives_readBool hstops) fun _ _ => trivial
  split at hread
  · next htag =>
    cases hread
    rw [htag] at hstops
    exact .map (Scalar.gives_readInt hstops) fun _ _ => trivial
  split at hread
  · next htag =>
    cases hread
    rw [htag] at hstops
    exact .map (Scalar.gives_readFloat hstops) fun _ _ => trivial
  split at hread
  · cases hread
    simp only
    split
    · exact .of_ok trivial
    · exact .of_error hmark
  split at hread
  · next htag =>
    cases hread
    rw [htag] at hcontent hstops
    simp only
    split
    · exact Scalar.gives_readTimestamp hstops
    · next hnot =>
      rcases hcontent (by decide) with hreason | hscalar
      · exact .of_error hreason
      · exact absurd hscalar (hnot text)
  · cases hread

theorem gives_visit (h : c.Kept t R loose) (n : Nat) :
    Gives (From t R) (fun r => r.2.Kept t R loose) (c.visit limits n) := by
  have hkept := h.node n
  unfold visit
  split
  · exact .of_ok h
  · simp only
    split
    · next read hread =>
      refine .bind (gives_textOf h _ n) fun text htext => ?_
      have hcontent : (c.node n).tag ∈ strictTags → R ∨ (c.node n).content = .scalar text := by
        intro hstrict
        by_cases hloose : loose n
        · exact Or.inl (hkept.tag hloose hstrict)
        · rcases htext with ⟨pairs, hpairs⟩ | htext
          · exact absurd hpairs (hkept.mapping hloose pairs)
          · exact Or.inr htext
      refine .bind (gives_read hread hkept.mark hcontent fun hstops => ?_) fun s _ => .of_pure h
      have hstrict := Scalar.mem_of_stops hstops
      by_cases hloose : loose n
      · exact hkept.tag hloose hstrict
      · rcases hcontent hstrict with hreason | hscalar
        · exact hreason
        · exact hkept.scalar hloose text hscalar hstops
    · split
      · exact .of_ok h
      · exact h.gives_fail n

/-! ### Merging -/

theorem Kept.setPairs (h : c.Kept t R loose) (hn : loose n) (pairs : List (Nat × Nat)) :
    (c.setPairs n pairs).Kept t R loose := by
  intro m node hm
  simp only [Construction.setPairs, Array.getElem?_modify] at hm
  split at hm
  · next heq =>
    subst heq
    obtain ⟨old, hold, rfl⟩ := Option.map_eq_some_iff.1 hm
    exact ⟨(h n old hold).mark, (h n old hold).tag, fun hloose => absurd hn hloose,
      fun hloose => absurd hn hloose⟩
  · exact h m node hm

theorem Kept.settleValueKeys (h : c.Kept t R loose) (pairs : List (Nat × Nat)) :
    (c.settleValueKeys pairs).Kept t R loose := by
  unfold Construction.settleValueKeys
  simp only
  induction pairs generalizing c with
  | nil => exact h
  | cons pair pairs ih =>
    refine ih (c := ⟨c.nodes.modify pair.1 fun node =>
      if node.tag = Tag.value then { node with tag := Tag.str } else node, c.cells, c.queue⟩) ?_
    intro m node hm
    simp only [Array.getElem?_modify] at hm
    split at hm
    · obtain ⟨old, hold, rfl⟩ := Option.map_eq_some_iff.1 hm
      have hkept := h m old hold
      have hstr : Tag.str ∉ strictTags := by decide
      split
      · exact ⟨hkept.mark, fun _ htag => absurd htag hstr, hkept.mapping,
          fun _ _ _ hstops => absurd (Scalar.mem_of_stops hstops) hstr⟩
      · exact hkept
    · exact h m node hm

theorem Kept.loose_of_find? (h : c.Kept t R loose) {p : Nat × Nat → Bool} {pair : Nat × Nat}
    (hpair : (c.pairsOf n).find? p = some pair) : loose n := by
  refine Classical.byContradiction fun hloose => ?_
  unfold pairsOf at hpair
  split at hpair
  · next pairs hpairs => exact (h.node n).mapping hloose pairs hpairs
  · cases hpair

/-- Merging keeps every node: the only nodes it gives pairs to are mappings, which are loose. -/
theorem gives_flatten (fuel room n : Nat) (merged : List (Nat × Nat)) (hn : merged ≠ [] → loose n)
    (h : c.Kept t R loose) : Gives (From t R) (Kept t R loose) (flatten fuel room n merged c) := by
  induction fuel generalizing room n merged c with
  | zero => exact .of_ok h
  | succ fuel ih =>
    unfold flatten
    simp only
    split
    · refine .of_ok ?_
      have hsettled := h.settleValueKeys (c.pairsOf n)
      split
      · exact hsettled
      · next hmerged => exact hsettled.setPairs (hn (by simpa using hmerged)) _
    · next pair hpair =>
      have hloose := h.loose_of_find? hpair
      have hset := h.setPairs hloose ((c.pairsOf n).erase pair)
      split
      · refine .bind (P := Kept t R loose) ?_ fun c' hc' => ?_
        · exact .ite (fun _ => .of_error trivial) fun _ =>
            ih _ pair.2 [] (fun hne => absurd rfl hne) hset
        · exact ih room n _ (fun _ => hloose) hc'
      · refine .bind (P := fun r : Construction × List (List (Nat × Nat)) => r.1.Kept t R loose) ?_ ?_
        · refine .foldlM hset ?_
          rintro ⟨c', parts⟩ item hc' -
          simp only
          split
          · refine .bind (P := Kept t R loose) ?_ fun _ hc'' => .of_pure hc''
            exact .ite (fun _ => .of_error trivial) fun _ =>
              ih _ item [] (fun hne => absurd rfl hne) hc'
          · exact hc'.gives_fail item
        · rintro ⟨c', parts⟩ hc'
          exact ih room n _ (fun _ => hloose) hc'
      · exact hset.gives_fail pair.2

/-! ### Members -/

theorem gives_addEntry {found : List (Key × Nat) × Construction} (h : found.2.Kept t R loose)
    (pair : Nat × Nat) :
    Gives (From t R) (fun r => r.2.Kept t R loose) (addEntry limits found pair) := by
  unfold addEntry
  refine .bind (gives_visit h pair.1) ?_
  rintro ⟨cell, c⟩ hc
  simp only
  split
  · exact .bind (gives_visit hc pair.2) fun _ hr => .of_pure hr
  · exact hc.gives_fail pair.1

theorem gives_entriesOf (h : c.Kept t R loose) (n : Nat) :
    Gives (From t R) (fun r => r.2.Kept t R loose) (c.entriesOf limits n) := by
  unfold entriesOf
  split
  · refine .bind (gives_flatten _ _ n [] (fun hne => absurd rfl hne) h) fun c' hc' => ?_
    refine .bind (P := fun r : List (Key × Nat) × Construction => r.2.Kept t R loose) ?_
      fun _ hr => .of_pure hr
    exact .foldlM hc' fun found pair hfound _ => gives_addEntry hfound pair
  · exact h.gives_fail n

theorem gives_orderedOf (h : c.Kept t R loose) (n : Nat) :
    Gives (From t R) (fun r => r.2.Kept t R loose) (c.orderedOf limits n) := by
  unfold orderedOf
  split
  · refine .foldlM h ?_
    rintro ⟨pairs, c⟩ item hc -
    simp only
    split
    · refine .bind (gives_visit hc _) fun r hr => ?_
      exact .bind (gives_visit hr _) fun _ hr => .of_pure hr
    · exact hc.gives_fail item
    · exact hc.gives_fail item
  · exact h.gives_fail n

theorem gives_fill (h : c.Kept t R loose) (n : Nat) :
    Gives (From t R) (Kept t R loose) (c.fill limits n) := by
  unfold fill
  split
  · exact .bind (gives_entriesOf h n) fun _ hr => .of_pure hr
  · exact .bind (gives_entriesOf h n) fun _ hr => .of_pure hr
  · exact .bind (gives_orderedOf h n) fun _ hr => .of_pure hr
  · split
    · refine .bind (P := Kept t R loose) ?_ fun _ hc' => .of_pure hc'
      exact .foldlM h fun c' item hc' _ => .bind (gives_visit hc' item) fun _ hr => .of_pure hr
    · exact h.gives_fail n
  · exact .of_pure h

theorem gives_drain (fuel : Nat) (h : c.Kept t R loose) :
    Gives (From t R) (Kept t R loose) (drain limits fuel c) := by
  induction fuel generalizing c with
  | zero => exact .of_ok h
  | succ fuel ih =>
    unfold drain
    split
    · exact .of_ok h
    · exact .bind (gives_fill (by exact h) _) fun _ hc' => ih hc'

end Construction

/-! ## The graph -/

/-- Whether a scalar or a mapping may stop the document.  A tag given for itself only, `!`, leaves
the text to decide. -/
def Event.Kind.mayStop : Event.Kind → Bool
  | .scalar _ tag implicit text =>
    match tag.filter (· ≠ "!") with
    | some t => Scalar.stops t text
    | none => implicit && Scalar.plainStops text
  | .mappingStart _ tag => tag.any strictTags.contains
  | _ => false

/-- A node on which reading stops with the reason `R` only, as the events leave it. -/
structure Node.Tame (t : List Char) (R : Prop) (node : Node) : Prop where
  mark : Marks t node.mark
  scalar : ∀ text, node.content = .scalar text → Scalar.stops node.tag text = true → R
  mapping : ∀ pairs, node.content = .mapping pairs → node.tag ∈ strictTags → R

theorem Node.Tame.kept {t : List Char} {R : Prop} {node : Node} (h : node.Tame t R) :
    node.Kept t R (node.tag ∈ strictTags → R) :=
  ⟨h.mark, id, fun hstrict pairs hpairs => hstrict (h.mapping pairs hpairs), fun _ => h.scalar⟩

namespace Graph
namespace Builder

variable {limits : Limits} {t : List Char} {R : Prop} {b : Builder}

/-- An open mapping has no tag that stops the document without the reason `R`. -/
def HarmlessAt (R : Prop) (nodes : Array Node) : Frame → Prop
  | .sequence _ _ => True
  | .mapping n _ _ => ∃ node, nodes[n]? = some node ∧ (node.tag ∈ strictTags → R)

structure Tame (t : List Char) (R : Prop) (b : Builder) : Prop where
  nodes : ∀ (n : Nat) (node : Node), b.nodes[n]? = some node → node.Tame t R
  frames : ∀ f ∈ b.frames, HarmlessAt R b.nodes f

theorem tame_empty : Tame t R empty := by
  refine ⟨fun n node hn => ?_, fun f hf => absurd hf List.not_mem_nil⟩
  rw [empty, Array.getElem?_empty] at hn
  cases hn

theorem Tame.attach (h : b.Tame t R) (n : Nat) : (b.attach n).Tame t R := by
  have hframes := h.frames
  unfold Builder.attach
  split
  · exact ⟨h.nodes, h.frames⟩
  all_goals
    next hfs =>
    rw [hfs, List.forall_mem_cons] at hframes
    exact ⟨h.nodes, List.forall_mem_cons.2 hframes⟩

theorem HarmlessAt.push {nodes : Array Node} {f : Frame} (h : HarmlessAt R nodes f) (node : Node) :
    HarmlessAt R (nodes.push node) f := by
  cases f with
  | sequence n items => trivial
  | mapping n pairs key =>
    obtain ⟨old, hold, htag⟩ := h
    obtain ⟨hlt, -⟩ := Array.getElem?_eq_some_iff.1 hold
    refine ⟨old, ?_, htag⟩
    rw [Array.getElem?_push, if_neg (by omega), hold]

theorem gives_add (h : b.Tame t R) (anchor : Option String) {node : Node} (hnode : node.Tame t R) :
    Gives (From t R) (fun r => r.2.Tame t R ∧ r.2.nodes[r.1]? = some node) (b.add anchor node) := by
  have hpush : ∀ (n : Nat) (m : Node), (b.nodes.push node)[n]? = some m → m.Tame t R := by
    intro n m hm
    rw [Array.getElem?_push] at hm
    split at hm
    · cases hm
      exact hnode
    · exact h.nodes n m hm
  have hframes : ∀ f ∈ b.frames, HarmlessAt R (b.nodes.push node) f :=
    fun f hf => (h.frames f hf).push node
  unfold add
  simp only
  split
  · exact .of_ok ⟨⟨hpush, hframes⟩, Array.getElem?_push_size⟩
  · refine .ite (fun _ => .of_error hnode.mark) fun _ => ?_
    exact .of_ok ⟨⟨hpush, hframes⟩, Array.getElem?_push_size⟩

theorem gives_openFrame (h : b.Tame t R) {frame : Nat → Frame} (anchor : Option String) {node : Node}
    (hnode : node.Tame t R)
    (hframe : ∀ (nodes : Array Node) n, nodes[n]? = some node → HarmlessAt R nodes (frame n)) :
    Gives (From t R) (Tame t R) (b.openFrame limits frame anchor node) := by
  unfold openFrame
  refine .ite (fun _ => .of_error trivial) fun _ => ?_
  refine .bind (gives_add h anchor hnode) ?_
  rintro ⟨n, b'⟩ ⟨hb', hn⟩
  exact .of_pure ⟨hb'.nodes, List.forall_mem_cons.2 ⟨hframe _ n hn, hb'.frames⟩⟩

theorem HarmlessAt.setContent {n : Nat} {f : Frame} (h : HarmlessAt R b.nodes f) (content : Content) :
    HarmlessAt R (b.setContent n content).nodes f := by
  cases f with
  | sequence n items => trivial
  | mapping m pairs key =>
    obtain ⟨old, hold, htag⟩ := h
    unfold Builder.setContent
    by_cases heq : n = m
    · refine ⟨{ old with content }, ?_, htag⟩
      rw [Array.getElem?_modify, if_pos heq, hold]
      rfl
    · refine ⟨old, ?_, htag⟩
      rw [Array.getElem?_modify, if_neg heq, hold]

theorem Tame.setContent (h : b.Tame t R) {n : Nat} {content : Content}
    (hcontent : ∀ node : Node, b.nodes[n]? = some node → Node.Tame t R { node with content }) :
    (b.setContent n content).Tame t R := by
  refine ⟨fun m node hm => ?_, fun f hf => (h.frames f hf).setContent content⟩
  simp only [Builder.setContent, Array.getElem?_modify] at hm
  split at hm
  · next heq =>
    subst heq
    obtain ⟨old, hold, rfl⟩ := Option.map_eq_some_iff.1 hm
    exact hcontent old hold
  · exact h.nodes m node hm

theorem Tame.closeSequence (h : b.Tame t R) {n : Nat} {items : List Nat} {fs : List Frame}
    (hfs : b.frames = .sequence n items :: fs) :
    (({ b with frames := fs }.setContent n (.sequence items.reverse)).attach n).Tame t R := by
  have hframes := h.frames
  rw [hfs, List.forall_mem_cons] at hframes
  refine Tame.attach (Tame.setContent (b := { b with frames := fs }) ⟨h.nodes, hframes.2⟩ ?_) n
  exact fun node hnode => ⟨(h.nodes n node hnode).mark, nofun, nofun⟩

theorem Tame.closeMapping (h : b.Tame t R) {n : Nat} {pairs : List (Nat × Nat)} {key : Option Nat}
    {fs : List Frame} (hfs : b.frames = .mapping n pairs key :: fs) :
    (({ b with frames := fs }.setContent n (.mapping pairs.reverse)).attach n).Tame t R := by
  have hframes := h.frames
  rw [hfs, List.forall_mem_cons] at hframes
  obtain ⟨⟨old, hold, htag⟩, hframes⟩ := hframes
  refine Tame.attach (Tame.setContent (b := { b with frames := fs }) ⟨h.nodes, hframes⟩ ?_) n
  intro node hnode
  rw [show b.nodes[n]? = some node from hnode] at hold
  cases hold
  exact ⟨(h.nodes n _ hnode).mark, nofun, fun _ _ => htag⟩

theorem stops_tagOr {tag : Option String} {anchor : Option String} {implicit : Bool}
    {text : List Char} (h : (Event.Kind.scalar anchor tag implicit text).mayStop = false) :
    Scalar.stops (tagOr tag (if implicit then Scalar.tagOf text else Tag.str)) text = false := by
  have hdefault : (implicit && Scalar.plainStops text) = false →
      Scalar.stops (if implicit then Scalar.tagOf text else Tag.str) text = false := by
    intro hplain
    split
    · next himplicit =>
      rw [himplicit, Bool.true_and] at hplain
      exact Scalar.stops_tagOf hplain
    · exact Scalar.stops_of_not_mem (by decide) text
  cases tag with
  | none => exact hdefault h
  | some t =>
    by_cases ht : t = "!"
    · subst ht
      exact hdefault h
    · simp only [Event.Kind.mayStop, Option.filter_some, ne_eq, ht, not_false_eq_true, decide_true,
        if_true] at h
      show Scalar.stops (if t = "!" then _ else t) text = false
      rw [if_neg ht]
      exact h

theorem not_mem_tagOr_map {tag anchor : Option String}
    (h : (Event.Kind.mappingStart anchor tag).mayStop = false) :
    tagOr tag Tag.map ∉ strictTags := by
  cases tag with
  | none => exact (by decide : Tag.map ∉ strictTags)
  | some t =>
    show (if t = "!" then Tag.map else t) ∉ strictTags
    split
    · decide
    · intro hmem
      have hcontains : strictTags.contains t = false := h
      rw [List.contains_iff_mem.2 hmem] at hcontains
      cases hcontains

theorem gives_event (h : b.Tame t R) {e : Event} (hstart : Marks t e.start)
    (he : e.kind.mayStop = true → R) : Gives (From t R) (Tame t R) (b.event limits e) := by
  unfold event
  split
  · split
    · exact .of_ok (h.attach _)
    · exact .of_error hstart
  · next anchor tag implicit text hkind =>
    rw [hkind] at he
    refine .bind (gives_add h anchor ⟨hstart, ?_, nofun⟩) ?_
    · intro _ htext hstops
      cases htext
      refine he (eq_true_of_ne_false fun hmay => ?_)
      rw [stops_tagOr hmay] at hstops
      cases hstops
    · rintro ⟨n, b'⟩ ⟨hb', -⟩
      exact .of_pure (hb'.attach n)
  · exact gives_openFrame h _ ⟨hstart, nofun, nofun⟩ fun _ _ _ => trivial
  · next anchor tag hkind =>
    rw [hkind] at he
    have htag : tagOr tag Tag.map ∈ strictTags → R := fun hmem =>
      he (eq_true_of_ne_false fun hmay => not_mem_tagOr_map hmay hmem)
    exact gives_openFrame h _ ⟨hstart, nofun, fun _ _ => htag⟩ fun _ _ hn => ⟨_, hn, htag⟩
  · split
    · next hfs => exact .of_ok (h.closeSequence hfs)
    · next hfs => exact .of_ok (h.closeMapping hfs)
    · exact .of_ok h
  · split
    · next hfs => exact .of_ok (h.closeSequence hfs)
    · next hfs => exact .of_ok (h.closeMapping hfs)
    · exact .of_ok h
  · exact .of_ok h

end Builder

variable {limits : Limits} {t : List Char} {R : Prop}

/-- Every node of a graph is tame. -/
def Tame (t : List Char) (R : Prop) (g : Graph) : Prop :=
  ∀ (n : Nat) (node : Node), g.nodes[n]? = some node → node.Tame t R

theorem gives_build {fault : Option Fault} (hfault : ∀ f, fault = some f → From t R f) {b : Builder}
    (hb : b.Tame t R) {es : List Event} (hes : ∀ e ∈ es, Marks t e.start)
    (hstop : ∀ e ∈ es, e.kind.mayStop = true → R) :
    Gives (From t R) (fun g? => ∀ g ∈ g?, g.Tame t R) (build limits fault b es) := by
  have hroot : ∀ b : Builder, b.Tame t R → ∀ g ∈ b.root.map fun r => (⟨b.nodes, r⟩ : Graph),
      g.Tame t R := by
    intro b hb g hg
    obtain ⟨r, -, rfl⟩ := Option.map_eq_some_iff.1 hg
    exact hb.nodes
  induction es generalizing b with
  | nil =>
    unfold build
    split
    · next f => exact .of_error (hfault f rfl)
    · exact .of_ok (hroot b hb)
  | cons e es ih =>
    obtain ⟨he, hes⟩ := List.forall_mem_cons.1 hes
    obtain ⟨hestop, hstop⟩ := List.forall_mem_cons.1 hstop
    unfold build
    split
    · exact .of_ok (hroot b hb)
    · exact .ite (fun _ => .of_error he) fun _ => ih hb hes hstop
    · exact ih hb hes hstop
    · exact ih hb hes hstop
    · have hevent : Gives (From t R) (Builder.Tame t R) (b.event limits e) :=
        Builder.gives_event hb he hestop
      split
      · next b' hb' => exact ih (hevent.of_eq_ok hb') hes hstop
      · next f hf => rw [hf] at hevent; exact hevent.error

theorem gives_ofEvents {f : Feed Event} (hf : f.Gives (From t R) (Marks t ·.start))
    (hstop : ∀ e ∈ f.items, e.kind.mayStop = true → R) :
    Gives (From t R) (fun g? => ∀ g ∈ g?, g.Tame t R) (ofEvents limits f) :=
  gives_build hf.fault Builder.tame_empty hf.items hstop

end Graph

/-! ## Texts -/

/-- Whether a text holds something that may stop the document. -/
def mayStop (t : List Char) : Bool :=
  Token.hasHugeEscape t || (Event.ofTokens (Token.scan t)).items.any (·.kind.mayStop)

namespace Value

theorem gives_ofGraph {limits : Limits} {t : List Char} {R : Prop} {g : Graph} (h : g.Tame t R) :
    Gives (From t R) (fun _ => True) (ofGraph limits g) := by
  have hkept : (⟨g.nodes, g.nodes.map fun _ => none, []⟩ : Construction).Kept t R
      fun n => ∀ node : Node, g.nodes[n]? = some node → node.tag ∈ strictTags → R := by
    intro n node hn
    have hnode := (h n node hn).kept
    have htight : (¬∀ node' : Node, g.nodes[n]? = some node' → node'.tag ∈ strictTags → R) →
        ¬(node.tag ∈ strictTags → R) := by
      refine fun hloose htag => hloose fun node' hn' => ?_
      rw [hn] at hn'
      cases hn'
      exact htag
    exact ⟨hnode.mark, fun hloose => hloose node hn, fun hloose => hnode.mapping (htight hloose),
      fun hloose => hnode.scalar (htight hloose)⟩
  unfold ofGraph
  refine .bind (Construction.gives_visit hkept _) fun r hr => ?_
  exact .bind (Construction.gives_drain _ hr) fun _ _ => .of_pure trivial

/-- A text has a value, or no document, or a fault: one with its mark in the text, one without a mark,
or one that stops the document, if something in the text may. -/
theorem gives_ofText {limits : Limits} (t : List Char) :
    Gives (From t (mayStop t = true)) (fun _ => True) (ofText limits t) := by
  have hescape : Token.hasHugeEscape t = true → mayStop t = true := fun h => by
    rw [mayStop, h, Bool.true_or]
  have hevent : ∀ e ∈ (Event.ofTokens (Token.scan t)).items, e.kind.mayStop = true →
      mayStop t = true := fun e he h => by
    rw [mayStop, List.any_eq_true.mpr ⟨e, he, h⟩, Bool.or_true]
  unfold ofText
  split
  · exact .of_error trivial
  · have hevents := Event.gives_ofTokens ((Token.gives_scan t).weaken hescape)
    refine .bind (Graph.gives_ofEvents hevents hevent) fun g? hg? => ?_
    split
    · exact .of_pure trivial
    · next g => exact .bind (gives_ofGraph (hg? g rfl)) fun _ _ => .of_pure trivial

end Value
end Yaml
end TalkDeck
