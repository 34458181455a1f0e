import Mathlib.Data.List.Forall2
import TalkDeck.Proofs.Yaml.Events

/-
The nodes of a layout.

`Shows` says that a node stands for a layout: its members stand for the members, and have higher
numbers.  The events of a layout add such a node, and every node they add stands for some layout
(`Grows`), so the events of a block's text give a graph whose root stands for its fields
(`ofEvents_text`).
-/

namespace TalkDeck
namespace Yaml

namespace Graph

open Layout

/-! ## Nodes that stand for layouts -/

/-- A node with a text that can be read. -/
def TextAt (nodes : Array Node) (t : List Char) (n : Nat) : Prop :=
  (∃ mark, nodes[n]? = some ⟨Scalar.tagOf t, .scalar t, mark⟩) ∧ (Scalar.ofPlain? t).isSome = true

mutual

/-- The node stands for the layout. -/
def Shows (nodes : Array Node) : Layout → Nat → Prop
  | .scalar t, n => TextAt nodes t n
  | .items xs, n =>
    ∃ ms mark, nodes[n]? = some ⟨Tag.seq, .sequence ms, mark⟩ ∧ ItemsShow nodes n xs ms
  | .fields fs, n =>
    ∃ ps mark, nodes[n]? = some ⟨Tag.map, .mapping ps, mark⟩ ∧ (fs.map (·.key)).Nodup ∧
      FieldsShow nodes n fs ps

def ItemsShow (nodes : Array Node) (n : Nat) : List (Dashed Layout) → List Nat → Prop
  | [], ms => ms = []
  | ⟨_, x⟩ :: xs, ms => ∃ m ms', ms = m :: ms' ∧ (n < m ∧ Shows nodes x m) ∧ ItemsShow nodes n xs ms'

def FieldsShow (nodes : Array Node) (n : Nat) : List (Keyed Layout) → List (Nat × Nat) → Prop
  | [], ps => ps = []
  | ⟨key, _, v⟩ :: fs, ps =>
    ∃ k m ps', ps = (k, m) :: ps' ∧
      (n < k ∧ TextAt nodes key k ∧ Scalar.tagOf key = Tag.str ∧ n < m ∧ Shows nodes v m) ∧
      FieldsShow nodes n fs ps'

end

/-- A member of a sequence with the number of its node. -/
def ItemShows (nodes : Array Node) (n : Nat) (x : Dashed Layout) (m : Nat) : Prop :=
  n < m ∧ Shows nodes x.value m

/-- A field of a mapping with the numbers of its nodes. -/
def FieldShows (nodes : Array Node) (n : Nat) (f : Keyed Layout) (p : Nat × Nat) : Prop :=
  n < p.1 ∧ TextAt nodes f.key p.1 ∧ Scalar.tagOf f.key = Tag.str ∧ n < p.2 ∧ Shows nodes f.value p.2

theorem itemsShow_iff {nodes : Array Node} {n : Nat} {xs : List (Dashed Layout)} {ms : List Nat} :
    ItemsShow nodes n xs ms ↔ List.Forall₂ (ItemShows nodes n) xs ms := by
  induction xs generalizing ms with
  | nil => rw [ItemsShow, List.forall₂_nil_left_iff]
  | cons x xs ih =>
    rw [ItemsShow, List.forall₂_cons_left_iff]
    constructor
    · rintro ⟨m, ms', rfl, hm, hms⟩
      exact ⟨m, ms', hm, ih.mp hms, rfl⟩
    · rintro ⟨m, ms', hm, hms, rfl⟩
      exact ⟨m, ms', rfl, hm, ih.mpr hms⟩

theorem fieldsShow_iff {nodes : Array Node} {n : Nat} {fs : List (Keyed Layout)}
    {ps : List (Nat × Nat)} :
    FieldsShow nodes n fs ps ↔ List.Forall₂ (FieldShows nodes n) fs ps := by
  induction fs generalizing ps with
  | nil => rw [FieldsShow, List.forall₂_nil_left_iff]
  | cons f fs ih =>
    rw [FieldsShow, List.forall₂_cons_left_iff]
    constructor
    · rintro ⟨k, m, ps', rfl, hp, hps⟩
      exact ⟨(k, m), ps', hp, ih.mp hps, rfl⟩
    · rintro ⟨⟨k, m⟩, ps', hp, hps, rfl⟩
      exact ⟨k, m, ps', rfl, hp, ih.mpr hps⟩

theorem exists_left_of_mem {α β : Type} {R : α → β → Prop} {xs : List α} {ys : List β}
    (h : List.Forall₂ R xs ys) {y : β} (hy : y ∈ ys) : ∃ x ∈ xs, R x y := by
  induction h with
  | nil => cases hy
  | @cons x z xs zs hxz _ ih =>
    rcases List.mem_cons.mp hy with rfl | hy
    · exact ⟨x, List.mem_cons_self, hxz⟩
    · obtain ⟨w, hw, hwy⟩ := ih hy
      exact ⟨w, List.mem_cons_of_mem x hw, hwy⟩

theorem lt_size_of_getElem? {nodes : Array Node} {n : Nat} {node : Node}
    (h : nodes[n]? = some node) : n < nodes.size := by
  obtain ⟨hlt, -⟩ := Array.getElem?_eq_some_iff.mp h
  exact hlt

theorem TextAt.frame {nodes nodes' : Array Node} {t : List Char} {n : Nat} (h : TextAt nodes t n)
    (hsame : n < nodes.size → nodes'[n]? = nodes[n]?) : TextAt nodes' t n := by
  obtain ⟨⟨mark, hn⟩, hread⟩ := h
  exact ⟨⟨mark, (hsame (lt_size_of_getElem? hn)).trans hn⟩, hread⟩

/-- What a node stands for depends only on nodes with higher numbers. -/
theorem Shows.frame {nodes nodes' : Array Node} {v : Layout} {n : Nat} (h : Shows nodes v n)
    (hsame : ∀ i, n ≤ i → i < nodes.size → nodes'[i]? = nodes[i]?) : Shows nodes' v n := by
  induction v using Layout.induct generalizing n with
  | scalar t =>
    rw [Shows] at h ⊢
    exact h.frame (hsame n (Nat.le_refl n))
  | items xs ih =>
    rw [Shows] at h ⊢
    obtain ⟨ms, mark, hn, hms⟩ := h
    refine ⟨ms, mark, (hsame n (Nat.le_refl n) (lt_size_of_getElem? hn)).trans hn, ?_⟩
    rw [itemsShow_iff, List.forall₂_iff_zip] at hms ⊢
    refine ⟨hms.1, fun {x m} hxm => ?_⟩
    obtain ⟨hlt, hm⟩ := hms.2 hxm
    exact ⟨hlt, ih x (List.of_mem_zip hxm).1 hm fun i hi => hsame i (by omega)⟩
  | fields fs ih =>
    rw [Shows] at h ⊢
    obtain ⟨ps, mark, hn, hnodup, hps⟩ := h
    refine ⟨ps, mark, (hsame n (Nat.le_refl n) (lt_size_of_getElem? hn)).trans hn, hnodup, ?_⟩
    rw [fieldsShow_iff, List.forall₂_iff_zip] at hps ⊢
    refine ⟨hps.1, fun {f p} hfp => ?_⟩
    obtain ⟨hlt, hkey, htag, hlt', hm⟩ := hps.2 hfp
    exact ⟨hlt, hkey.frame (hsame _ (by omega)), htag, hlt',
      ih f (List.of_mem_zip hfp).1 hm fun i hi => hsame i (by omega)⟩

/-- Nodes were added, each of them for a layout. -/
structure Grows (nodes nodes' : Array Node) : Prop where
  size_le : nodes.size ≤ nodes'.size
  same : ∀ i < nodes.size, nodes'[i]? = nodes[i]?
  fresh : ∀ i, nodes.size ≤ i → i < nodes'.size → ∃ v, Shows nodes' v i

theorem Grows.refl (nodes : Array Node) : Grows nodes nodes :=
  ⟨Nat.le_refl _, fun _ _ => rfl, fun i hi hlt => absurd hlt (by omega)⟩

theorem Grows.shows {nodes nodes' : Array Node} (h : Grows nodes nodes') {v : Layout} {n : Nat}
    (hv : Shows nodes v n) : Shows nodes' v n :=
  hv.frame fun i _ hi => h.same i hi

theorem Grows.trans {nodes₁ nodes₂ nodes₃ : Array Node} (h : Grows nodes₁ nodes₂)
    (h' : Grows nodes₂ nodes₃) : Grows nodes₁ nodes₃ := by
  refine ⟨Nat.le_trans h.size_le h'.size_le, fun i hi => ?_, fun i hi hlt => ?_⟩
  · rw [h'.same i (Nat.lt_of_lt_of_le hi h.size_le), h.same i hi]
  · by_cases hmid : i < nodes₂.size
    · obtain ⟨v, hv⟩ := h.fresh i hi hmid
      exact ⟨v, h'.shows hv⟩
    · exact h'.fresh i (by omega) hlt

theorem grows_text (nodes : Array Node) {t : List Char} (ht : (Scalar.ofPlain? t).isSome = true)
    (mark : Mark) :
    Grows nodes (nodes.push ⟨Scalar.tagOf t, .scalar t, mark⟩) ∧
      TextAt (nodes.push ⟨Scalar.tagOf t, .scalar t, mark⟩) t nodes.size := by
  have hat : TextAt (nodes.push ⟨Scalar.tagOf t, .scalar t, mark⟩) t nodes.size :=
    ⟨⟨mark, by rw [Array.getElem?_push_size]⟩, ht⟩
  refine ⟨⟨by rw [Array.size_push]; omega, fun i hi => ?_, fun i hi hlt => ?_⟩, hat⟩
  · rw [Array.getElem?_push, if_neg (by omega)]
  · rw [Array.size_push] at hlt
    obtain rfl : i = nodes.size := by omega
    exact ⟨.scalar t, by rw [Shows]; exact hat⟩

/-- A collection is added before its members and gets its content after them. -/
theorem grows_collection {nodes nodes' : Array Node} {node : Node} {content : Content}
    (h : Grows (nodes.push node) nodes') {v : Layout}
    (hv : Shows (nodes'.modify nodes.size fun node => { node with content }) v nodes.size) :
    Grows nodes (nodes'.modify nodes.size fun node => { node with content }) := by
  have hother : ∀ i, i ≠ nodes.size →
      (nodes'.modify nodes.size fun node => { node with content })[i]? = nodes'[i]? := by
    intro i hi
    rw [Array.getElem?_modify, if_neg (Ne.symm hi)]
  have hsize := h.size_le
  rw [Array.size_push] at hsize
  refine ⟨by rw [Array.size_modify]; omega, fun i hi => ?_, fun i hi hlt => ?_⟩
  · rw [hother i (by omega), h.same i (by rw [Array.size_push]; omega), Array.getElem?_push,
      if_neg (by omega)]
  · rw [Array.size_modify] at hlt
    by_cases hi' : i = nodes.size
    · subst hi'
      exact ⟨v, hv⟩
    · obtain ⟨w, hw⟩ := h.fresh i (by rw [Array.size_push]; omega) hlt
      exact ⟨w, hw.frame fun j hj _ => hother j (by omega)⟩

/-! ## Reading events -/

variable {limits : Limits}

section Build

variable {fault : Option Fault} {b : Builder} {e : Event} {es rest : List Event}

theorem build_scalar {t : List Char} (he : e.kind = .scalar none none true t) :
    build limits fault b (e :: es) =
      build limits fault ({ b with nodes := b.nodes.push ⟨Scalar.tagOf t, .scalar t, e.start⟩ }.attach
        b.nodes.size) es := by
  rw [build, he]
  simp [Builder.event, he, Builder.tagOr, Builder.add, bind, Except.bind, pure, Except.pure]

theorem build_sequenceStart (he : e.kind = .sequenceStart none none)
    (hdepth : b.frames.length < limits.nesting) :
    build limits fault b (e :: es) = build limits fault { b with
      nodes := b.nodes.push ⟨Tag.seq, .sequence [], e.start⟩
      frames := .sequence b.nodes.size [] :: b.frames } es := by
  rw [build, he]
  simp [Builder.event, he, Builder.openFrame, Nat.not_le.mpr hdepth, Builder.tagOr, Builder.add, bind,
    Except.bind, pure, Except.pure]

theorem build_mappingStart (he : e.kind = .mappingStart none none)
    (hdepth : b.frames.length < limits.nesting) :
    build limits fault b (e :: es) = build limits fault { b with
      nodes := b.nodes.push ⟨Tag.map, .mapping [], e.start⟩
      frames := .mapping b.nodes.size [] none :: b.frames } es := by
  rw [build, he]
  simp [Builder.event, he, Builder.openFrame, Nat.not_le.mpr hdepth, Builder.tagOr, Builder.add, bind,
    Except.bind, pure, Except.pure]

theorem build_sequenceEnd {n : Nat} {ms : List Nat} {fs : List Frame} (he : e.kind = .sequenceEnd)
    (hframes : b.frames = .sequence n ms :: fs) :
    build limits fault b (e :: es) =
      build limits fault ({ b with
        nodes := b.nodes.modify n fun node => { node with content := .sequence ms.reverse }
        frames := fs }.attach n) es := by
  rw [build, he]
  simp [Builder.event, he, hframes, Builder.setContent]

theorem build_mappingEnd {n : Nat} {ps : List (Nat × Nat)} {k : Option Nat} {fs : List Frame}
    (he : e.kind = .mappingEnd) (hframes : b.frames = .mapping n ps k :: fs) :
    build limits fault b (e :: es) =
      build limits fault ({ b with
        nodes := b.nodes.modify n fun node => { node with content := .mapping ps.reverse }
        frames := fs }.attach n) es := by
  rw [build, he]
  simp [Builder.event, he, hframes, Builder.setContent]

end Build

/-- The events of a layout add a node for it and put it into the collection around it. -/
def Builds (limits : Limits) (v : Layout) : Prop :=
  ∀ {fault : Option Fault} {b : Builder} {es rest : List Event}, es.map (·.kind) = v.events →
    b.frames.length + v.depth ≤ limits.nesting →
    ∃ nodes, build limits fault b (es ++ rest) =
        build limits fault ({ b with nodes }.attach b.nodes.size) rest ∧
      Grows b.nodes nodes ∧ b.nodes.size < nodes.size ∧ Shows nodes v b.nodes.size

theorem builds_text {t : List Char} (ht : (Scalar.ofPlain? t).isSome = true) :
    Builds limits (.scalar t) := by
  intro fault b es rest hes _
  rw [events] at hes
  obtain ⟨e, es, rfl, he, hnil⟩ := List.map_eq_cons_iff.mp hes
  obtain rfl := List.map_eq_nil_iff.mp hnil
  obtain ⟨hgrows, hat⟩ := grows_text b.nodes ht e.start
  exact ⟨_, build_scalar he, hgrows, by rw [Array.size_push]; omega, by rw [Shows]; exact hat⟩

section Members

variable {fault : Option Fault} {b : Builder} {es rest : List Event} {n : Nat} {frames : List Frame}

/-- A member is added to the open sequence. -/
theorem builds_member {x : Dashed Layout} (hx : Builds limits x.value) {ms : List Nat}
    (hes : es.map (·.kind) = x.value.events) (hframes : b.frames = .sequence n ms :: frames)
    (hn : n < b.nodes.size) (hdepth : b.frames.length + x.value.depth ≤ limits.nesting) :
    ∃ nodes, build limits fault b (es ++ rest) =
        build limits fault { b with nodes, frames := .sequence n (b.nodes.size :: ms) :: frames } rest ∧
      Grows b.nodes nodes ∧ b.nodes.size < nodes.size ∧ ItemShows nodes n x b.nodes.size := by
  obtain ⟨nodes, hbuild, hgrows, hsize, hshows⟩ := hx hes hdepth
  refine ⟨nodes, ?_, hgrows, hsize, hn, hshows⟩
  rw [hbuild, Builder.attach]
  simp only [hframes]

theorem builds_members {xs : List (Dashed Layout)} (hxs : ∀ x ∈ xs, Builds limits x.value)
    {ms : List Nat} (hes : es.map (·.kind) = itemEvents xs)
    (hframes : b.frames = .sequence n ms :: frames)
    (hn : n < b.nodes.size) (hdepth : b.frames.length + itemsDepth xs ≤ limits.nesting) :
    ∃ nodes ns, build limits fault b (es ++ rest) =
        build limits fault { b with nodes, frames := .sequence n (ns.reverse ++ ms) :: frames } rest ∧
      Grows b.nodes nodes ∧ List.Forall₂ (ItemShows nodes n) xs ns := by
  induction xs generalizing b es ms with
  | nil =>
    obtain rfl := List.map_eq_nil_iff.mp hes
    refine ⟨b.nodes, [], ?_, Grows.refl _, .nil⟩
    rw [List.nil_append, List.reverse_nil, List.nil_append, ← hframes]
  | cons x xs ih =>
    obtain ⟨hdepth₁, hdepth₂⟩ : b.frames.length + x.value.depth ≤ limits.nesting ∧
        b.frames.length + itemsDepth xs ≤ limits.nesting := by
      rw [itemsDepth] at hdepth
      omega
    rw [itemEvents] at hes
    obtain ⟨as, bs, rfl, has, hbs⟩ := List.map_eq_append_iff.mp hes
    obtain ⟨nodes, hbuild, hgrows, hsize, hshows⟩ :=
      builds_member (hxs x List.mem_cons_self) has hframes hn hdepth₁
    rw [hframes] at hdepth₂
    obtain ⟨nodes', ns, hbuild', hgrows', hall⟩ := ih
      (b := { b with nodes, frames := .sequence n (b.nodes.size :: ms) :: frames })
      (fun y hy => hxs y (List.mem_cons_of_mem _ hy)) hbs rfl (Nat.lt_trans hn hsize) hdepth₂
    refine ⟨nodes', b.nodes.size :: ns, ?_, hgrows.trans hgrows',
      .cons ⟨hn, hgrows'.shows hshows.2⟩ hall⟩
    rw [List.append_assoc, hbuild, hbuild']
    simp

/-- A field is added to the open mapping: its key, and then its value. -/
theorem builds_pair {f : Keyed Layout} (hf : Builds limits f.value)
    (htag : Scalar.tagOf f.key = Tag.str) {ps : List (Nat × Nat)}
    (hes : es.map (·.kind) = .scalar none none true f.key :: f.value.events)
    (hframes : b.frames = .mapping n ps none :: frames) (hn : n < b.nodes.size)
    (hdepth : b.frames.length + f.value.depth ≤ limits.nesting) :
    ∃ nodes m, build limits fault b (es ++ rest) =
        build limits fault
          { b with nodes, frames := .mapping n ((b.nodes.size, m) :: ps) none :: frames } rest ∧
      Grows b.nodes nodes ∧ b.nodes.size < nodes.size ∧ FieldShows nodes n f (b.nodes.size, m) := by
  obtain ⟨e, es, rfl, he, hes⟩ := List.map_eq_cons_iff.mp hes
  have hread : (Scalar.ofPlain? f.key).isSome = true := by
    rw [Scalar.ofPlain?, htag]
    rfl
  obtain ⟨hgrows, hat⟩ := grows_text b.nodes hread e.start
  obtain ⟨b₀, hb₀⟩ : ∃ b₀ : Builder, b₀ = { b with
      nodes := b.nodes.push ⟨Scalar.tagOf f.key, .scalar f.key, e.start⟩
      frames := .mapping n ps (some b.nodes.size) :: frames } := ⟨_, rfl⟩
  have hbuild : build limits fault b (e :: (es ++ rest)) = build limits fault b₀ (es ++ rest) := by
    rw [build_scalar he, Builder.attach, hb₀]
    simp only [hframes]
  have hnodes : b₀.nodes = b.nodes.push ⟨Scalar.tagOf f.key, .scalar f.key, e.start⟩ := by rw [hb₀]
  have hsize : b₀.nodes.size = b.nodes.size + 1 := by rw [hnodes, Array.size_push]
  rw [← hnodes] at hgrows hat
  rw [hframes] at hdepth
  obtain ⟨nodes, hbuild', hgrows', hsize', hshows⟩ :=
    @hf fault b₀ es rest hes (by rw [hb₀]; exact hdepth)
  have hattach : ({ b₀ with nodes } : Builder).attach b₀.nodes.size =
      { b with nodes, frames := .mapping n ((b.nodes.size, b₀.nodes.size) :: ps) none :: frames } := by
    rw [Builder.attach, hb₀]
  refine ⟨nodes, b₀.nodes.size, ?_, hgrows.trans hgrows', by omega, hn, hat.frame (hgrows'.same _),
    htag, ?_, hshows⟩
  · rw [List.cons_append, hbuild, hbuild', hattach]
  · show n < b₀.nodes.size
    omega

theorem Grows.fieldShows {nodes nodes' : Array Node} (h : Grows nodes nodes') {f : Keyed Layout}
    {p : Nat × Nat} (hp : FieldShows nodes n f p) : FieldShows nodes' n f p := by
  obtain ⟨hlt, hkey, htag, hlt', hvalue⟩ := hp
  exact ⟨hlt, hkey.frame (h.same _), htag, hlt', h.shows hvalue⟩

theorem builds_pairs {fs : List (Keyed Layout)} (hfs : ∀ f ∈ fs, Builds limits f.value)
    (hkeys : ∀ f ∈ fs, Scalar.tagOf f.key = Tag.str) {ps : List (Nat × Nat)}
    (hes : es.map (·.kind) = fieldEvents fs) (hframes : b.frames = .mapping n ps none :: frames)
    (hn : n < b.nodes.size) (hdepth : b.frames.length + fieldsDepth fs ≤ limits.nesting) :
    ∃ nodes qs, build limits fault b (es ++ rest) =
        build limits fault
          { b with nodes, frames := .mapping n (qs.reverse ++ ps) none :: frames } rest ∧
      Grows b.nodes nodes ∧ List.Forall₂ (FieldShows nodes n) fs qs := by
  induction fs generalizing b es ps with
  | nil =>
    obtain rfl := List.map_eq_nil_iff.mp hes
    refine ⟨b.nodes, [], ?_, Grows.refl _, .nil⟩
    rw [List.nil_append, List.reverse_nil, List.nil_append, ← hframes]
  | cons f fs ih =>
    obtain ⟨hdepth₁, hdepth₂⟩ : b.frames.length + f.value.depth ≤ limits.nesting ∧
        b.frames.length + fieldsDepth fs ≤ limits.nesting := by
      rw [fieldsDepth] at hdepth
      omega
    rw [fieldEvents, ← List.cons_append] at hes
    obtain ⟨as, bs, rfl, has, hbs⟩ := List.map_eq_append_iff.mp hes
    obtain ⟨nodes, m, hbuild, hgrows, hsize, hshows⟩ :=
      builds_pair (hfs f List.mem_cons_self) (hkeys f List.mem_cons_self) has hframes hn hdepth₁
    rw [hframes] at hdepth₂
    obtain ⟨nodes', qs, hbuild', hgrows', hall⟩ := ih
      (b := { b with nodes, frames := .mapping n ((b.nodes.size, m) :: ps) none :: frames })
      (fun g hg => hfs g (List.mem_cons_of_mem _ hg)) (fun g hg => hkeys g (List.mem_cons_of_mem _ hg))
      hbs rfl (Nat.lt_trans hn hsize) hdepth₂
    refine ⟨nodes', (b.nodes.size, m) :: qs, ?_, hgrows.trans hgrows',
      .cons (hgrows'.fieldShows hshows) hall⟩
    rw [List.append_assoc, hbuild, hbuild']
    simp

end Members

theorem isSome_ofPlain?_nil : (Scalar.ofPlain? []).isSome = true := by decide +kernel

section Content

variable {nodes nodes' : Array Node} {node : Node} {n : Nat} {content : Content}

theorem getElem?_setContent_self (h : nodes[n]? = some node) :
    (nodes.modify n fun node => { node with content })[n]? = some { node with content } := by
  rw [Array.getElem?_modify, if_pos rfl, h]
  rfl

theorem getElem?_setContent_ne {i : Nat} (h : n < i) :
    (nodes.modify n fun node => { node with content })[i]? = nodes[i]? := by
  rw [Array.getElem?_modify, if_neg (by omega)]

theorem ItemShows.setContent {x : Dashed Layout} {m : Nat} (h : ItemShows nodes n x m) :
    ItemShows (nodes.modify n fun node => { node with content }) n x m := by
  obtain ⟨hlt, hm⟩ := h
  exact ⟨hlt, hm.frame fun i hi _ => getElem?_setContent_ne (by omega)⟩

theorem FieldShows.setContent {f : Keyed Layout} {p : Nat × Nat} (h : FieldShows nodes n f p) :
    FieldShows (nodes.modify n fun node => { node with content }) n f p := by
  obtain ⟨hlt, hkey, htag, hlt', hm⟩ := h
  exact ⟨hlt, hkey.frame fun _ => getElem?_setContent_ne hlt, htag, hlt',
    hm.frame fun i hi _ => getElem?_setContent_ne (by omega)⟩

end Content

theorem builds_items {xs : List (Dashed Layout)} (hxs : ∀ x ∈ xs, Builds limits x.value) :
    Builds limits (.items xs) := by
  intro fault b es rest hes hdepth
  rw [events] at hes
  obtain ⟨e, es, rfl, he, hes⟩ := List.map_eq_cons_iff.mp hes
  obtain ⟨as, bs, rfl, has, hbs⟩ := List.map_eq_append_iff.mp hes
  obtain ⟨e', bs, rfl, he', hnil⟩ := List.map_eq_cons_iff.mp hbs
  obtain rfl := List.map_eq_nil_iff.mp hnil
  rw [depth] at hdepth
  obtain ⟨b₀, hb₀⟩ : ∃ b₀ : Builder, b₀ = { b with
      nodes := b.nodes.push ⟨Tag.seq, .sequence [], e.start⟩
      frames := .sequence b.nodes.size [] :: b.frames } := ⟨_, rfl⟩
  obtain ⟨nodes, ms, hbuild, hgrows, hall⟩ := builds_members hxs (b := b₀) (n := b.nodes.size) has
    (by rw [hb₀]) (by rw [hb₀, Array.size_push]; omega) (by
      rw [hb₀]
      show b.frames.length + 1 + itemsDepth xs ≤ _
      omega)
  rw [show b₀.nodes = b.nodes.push ⟨Tag.seq, .sequence [], e.start⟩ by rw [hb₀]] at hgrows
  have hself : nodes[b.nodes.size]? = some ⟨Tag.seq, .sequence [], e.start⟩ := by
    rw [hgrows.same _ (by rw [Array.size_push]; omega), Array.getElem?_push_size]
  have hshows : Shows (nodes.modify b.nodes.size fun node => { node with content := .sequence ms })
      (.items xs) b.nodes.size := by
    rw [Shows]
    exact ⟨ms, e.start, getElem?_setContent_self hself,
      itemsShow_iff.mpr (hall.imp fun _ _ h => h.setContent)⟩
  refine ⟨_, ?_, grows_collection hgrows hshows, ?_, hshows⟩
  · rw [List.cons_append, List.append_assoc, List.singleton_append,
      build_sequenceStart he (by omega), ← hb₀, hbuild, List.append_nil, build_sequenceEnd he' rfl,
      List.reverse_reverse, hb₀]
  · rw [Array.size_modify]
    exact lt_size_of_getElem? hself

theorem builds_fields {fs : List (Keyed Layout)} (hfs : ∀ f ∈ fs, Builds limits f.value)
    (hkeys : ∀ f ∈ fs, Scalar.tagOf f.key = Tag.str) (hnodup : (fs.map (·.key)).Nodup) :
    Builds limits (.fields fs) := by
  intro fault b es rest hes hdepth
  rw [events] at hes
  obtain ⟨e, es, rfl, he, hes⟩ := List.map_eq_cons_iff.mp hes
  obtain ⟨as, bs, rfl, has, hbs⟩ := List.map_eq_append_iff.mp hes
  obtain ⟨e', bs, rfl, he', hnil⟩ := List.map_eq_cons_iff.mp hbs
  obtain rfl := List.map_eq_nil_iff.mp hnil
  rw [depth] at hdepth
  obtain ⟨b₀, hb₀⟩ : ∃ b₀ : Builder, b₀ = { b with
      nodes := b.nodes.push ⟨Tag.map, .mapping [], e.start⟩
      frames := .mapping b.nodes.size [] none :: b.frames } := ⟨_, rfl⟩
  obtain ⟨nodes, ps, hbuild, hgrows, hall⟩ := builds_pairs hfs hkeys (b := b₀)
    (n := b.nodes.size) has (by rw [hb₀]) (by rw [hb₀, Array.size_push]; omega) (by
      rw [hb₀]
      show b.frames.length + 1 + fieldsDepth fs ≤ _
      omega)
  rw [show b₀.nodes = b.nodes.push ⟨Tag.map, .mapping [], e.start⟩ by rw [hb₀]] at hgrows
  have hself : nodes[b.nodes.size]? = some ⟨Tag.map, .mapping [], e.start⟩ := by
    rw [hgrows.same _ (by rw [Array.size_push]; omega), Array.getElem?_push_size]
  have hshows : Shows (nodes.modify b.nodes.size fun node => { node with content := .mapping ps })
      (.fields fs) b.nodes.size := by
    rw [Shows]
    exact ⟨ps, e.start, getElem?_setContent_self hself, hnodup,
      fieldsShow_iff.mpr (hall.imp fun _ _ h => h.setContent)⟩
  refine ⟨_, ?_, grows_collection hgrows hshows, ?_, hshows⟩
  · rw [List.cons_append, List.append_assoc, List.singleton_append,
      build_mappingStart he (by omega), ← hb₀, hbuild, List.append_nil, build_mappingEnd he' rfl,
      List.reverse_reverse, hb₀]
  · rw [Array.size_modify]
    exact lt_size_of_getElem? hself

theorem builds {v : Layout} (h : v.wellFormed = true) : Builds limits v := by
  induction v using Layout.induct with
  | scalar t =>
    rcases wellFormed_scalar_iff.mp h with rfl | ht
    · exact builds_text isSome_ofPlain?_nil
    · exact builds_text (Token.isText_iff.mp ht).2.2.2.2.2
  | items xs ih =>
    obtain ⟨-, hxs⟩ := wellFormed_items_iff.mp h
    exact builds_items fun x hx => ih x hx (hxs x hx).2
  | fields fs ih =>
    obtain ⟨-, hnodup, hfs⟩ := wellFormed_fields_iff.mp h
    refine builds_fields (fun f hf => ih f hf (hfs f hf).2.2) (fun f hf => ?_) hnodup
    exact (Token.isKey_iff.mp (hfs f hf).2.1).2.2.2

/-- The graph of a block's text. -/
theorem ofEvents_text {fs : List (Keyed Layout)} (h : (Layout.fields fs).wellFormed = true)
    (hdepth : (Layout.fields fs).depth ≤ limits.nesting) {es : List Event}
    (hes : es.map (·.kind) = [.streamStart, .documentStart] ++ Layout.events (.fields fs) ++
      [.documentEnd, .streamEnd]) :
    ∃ nodes, ofEvents limits ⟨es, none⟩ = .ok (some ⟨nodes, 0⟩) ∧ Shows nodes (.fields fs) 0 ∧
      ∀ i < nodes.size, ∃ v, Shows nodes v i := by
  rw [List.append_assoc, List.cons_append, List.singleton_append] at hes
  obtain ⟨e₁, es, rfl, he₁, hes⟩ := List.map_eq_cons_iff.mp hes
  obtain ⟨e₂, es, rfl, he₂, hes⟩ := List.map_eq_cons_iff.mp hes
  obtain ⟨as, bs, rfl, has, hbs⟩ := List.map_eq_append_iff.mp hes
  obtain ⟨e₃, bs, rfl, he₃, hbs⟩ := List.map_eq_cons_iff.mp hbs
  obtain ⟨e₄, bs, rfl, he₄, -⟩ := List.map_eq_cons_iff.mp hbs
  obtain ⟨nodes, hbuild, hgrows, -, hshows⟩ := builds h (b := Builder.empty) has
    (by simpa [Builder.empty] using hdepth)
  refine ⟨nodes, ?_, hshows, fun i hi => hgrows.fresh i (Nat.zero_le i) hi⟩
  have hopen : build limits none Builder.empty (e₁ :: e₂ :: (as ++ e₃ :: e₄ :: bs)) =
      build limits none Builder.empty (as ++ e₃ :: e₄ :: bs) := by
    rw [build, he₁]
    simp only
    rw [build, he₂]
    rfl
  have hclose : build limits none (Builder.attach { Builder.empty with nodes } 0) (e₃ :: e₄ :: bs) =
      .ok (some ⟨nodes, 0⟩) := by
    rw [build, he₃]
    simp only
    rw [build, he₄]
    rfl
  rw [ofEvents, hopen, hbuild]
  exact hclose

end Graph
end Yaml
end TalkDeck
