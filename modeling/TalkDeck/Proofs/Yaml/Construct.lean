import TalkDeck.Proofs.Yaml.Nodes

/-
Constructing the value of a graph in which every node stands for a layout.

A cell is made when its node is first seen.  The cell of a collection waits in the queue until its
members are made, so at any time a cell is as its node says or waits (`Inv`), and once nothing waits
all cells are as their nodes say (`ofGraph_eq`).
-/

namespace TalkDeck
namespace Yaml

open Yaml.Graph

namespace Construction

/-! ## Cells -/

def cellAt (c : Construction) (n : Nat) : Option Cell := c.cells.getD n none

def Made (c : Construction) (n : Nat) : Prop := (c.cellAt n).isSome = true

/-- The number of cells still to be made. -/
def unmade (c : Construction) : Nat := c.cells.countP (·.isNone)

theorem cellAt_setCell {c : Construction} {n : Nat} (hn : n < c.cells.size) (cell : Cell) (m : Nat) :
    (c.setCell n cell).cellAt m = if m = n then some cell else c.cellAt m := by
  rw [cellAt, setCell, Array.getD_eq_getD_getElem?, Array.set!_eq_setIfInBounds,
    Array.getElem?_setIfInBounds]
  by_cases h : n = m
  · subst h
    rw [if_pos rfl, if_pos hn, if_pos rfl]
    rfl
  · rw [if_neg h, if_neg (Ne.symm h), cellAt, Array.getD_eq_getD_getElem?]

theorem unmade_setCell {c : Construction} {n : Nat} (hn : n < c.cells.size)
    (hnone : c.cellAt n = none) (cell : Cell) : (c.setCell n cell).unmade + 1 = c.unmade := by
  have hget : c.cells[n]? = some none := by
    rw [cellAt, Array.getD_eq_getD_getElem?, Array.getElem?_eq_getElem hn, Option.getD_some] at hnone
    rw [Array.getElem?_eq_getElem hn, hnone]
  have hget' : c.cells[n] = none := by
    rw [Array.getElem?_eq_getElem hn] at hget
    exact Option.some.inj hget
  have hpos : 0 < c.unmade := by
    rw [unmade, Array.countP_pos_iff]
    exact ⟨none, hget' ▸ Array.getElem_mem hn, rfl⟩
  rw [unmade] at hpos
  rw [unmade, unmade, setCell, Array.set!_eq_setIfInBounds, Array.setIfInBounds, dif_pos hn,
    Array.countP_set]
  simp only [hget', Option.isNone_none, if_true, Option.isNone_some]
  simp only [Bool.false_eq_true, if_false]
  omega

/-- An entry with the key and the value of a pair. -/
def Enters (nodes : Array Node) (made : Nat → Prop) (p : Nat × Nat) (key : Scalar) (value : Nat) :
    Prop :=
  value = p.2 ∧ made p.2 ∧ ∃ text, TextAt nodes text p.1 ∧ key = .str (String.ofList text)

theorem content_eq {nodes : Array Node} {n : Nat} {tag tag' : String} {content content' : Content}
    {mark mark' : Mark} (h : nodes[n]? = some ⟨tag, content, mark⟩)
    (h' : nodes[n]? = some ⟨tag', content', mark'⟩) :
    content = content' :=
  (Node.mk.inj (Option.some.inj (h.symm.trans h'))).2.1

theorem key_eq {nodes : Array Node} {k : Nat} {key : Scalar} {t : List Char}
    (h : ∃ text, TextAt nodes text k ∧ key = .str (String.ofList text)) (ht : TextAt nodes t k) :
    key = .str (String.ofList t) := by
  obtain ⟨text, ⟨⟨mark, hat⟩, -⟩, rfl⟩ := h
  obtain ⟨⟨mark', hat'⟩, -⟩ := ht
  rw [Content.scalar.inj (content_eq hat hat')]

/-- The cell is as the node says, with all members made. -/
inductive Fits (nodes : Array Node) (made : Nat → Prop) (n : Nat) : Cell → Prop where
  | scalar {t : List Char} {mark : Mark} {s : Scalar}
    (hnode : nodes[n]? = some ⟨Scalar.tagOf t, .scalar t, mark⟩) (hs : Scalar.ofPlain? t = some s) :
    Fits nodes made n (.scalar s)
  | list {ms : List Nat} {mark : Mark}
    (hnode : nodes[n]? = some ⟨Tag.seq, .sequence ms, mark⟩) (hms : ∀ m ∈ ms, made m) :
    Fits nodes made n (.list ms)
  | map {ps : List (Nat × Nat)} {mark : Mark} {es : List (Scalar × Nat)}
    (hnode : nodes[n]? = some ⟨Tag.map, .mapping ps, mark⟩)
    (hes : List.Forall₂ (fun p e => Enters nodes made p e.1 e.2) ps es) :
    Fits nodes made n (.map es)

theorem Fits.mono {nodes : Array Node} {made made' : Nat → Prop} {n : Nat} {cell : Cell}
    (h : Fits nodes made n cell) (hmade : ∀ m, made m → made' m) : Fits nodes made' n cell := by
  cases h with
  | scalar hnode hs => exact .scalar hnode hs
  | list hnode hms => exact .list hnode fun m hm => hmade m (hms m hm)
  | map hnode hes =>
    exact .map hnode (hes.imp fun _ _ ⟨hvalue, hm, hkey⟩ => ⟨hvalue, hmade _ hm, hkey⟩)

section

variable {nodes : Array Node} {made : Nat → Prop} {n : Nat} {cell : Cell} {tag : String} {mark : Mark}

theorem Fits.eq_scalar (h : Fits nodes made n cell) {t : List Char}
    (hnode : nodes[n]? = some ⟨tag, .scalar t, mark⟩) :
    ∃ s, cell = .scalar s ∧ Scalar.ofPlain? t = some s := by
  cases h with
  | scalar hnode' hs =>
    obtain rfl := Content.scalar.inj (content_eq hnode hnode')
    exact ⟨_, rfl, hs⟩
  | list hnode' => cases content_eq hnode hnode'
  | map hnode' => cases content_eq hnode hnode'

theorem Fits.eq_list (h : Fits nodes made n cell) {ms : List Nat}
    (hnode : nodes[n]? = some ⟨tag, .sequence ms, mark⟩) : cell = .list ms ∧ ∀ m ∈ ms, made m := by
  cases h with
  | scalar hnode' => cases content_eq hnode hnode'
  | list hnode' hms =>
    obtain rfl := Content.sequence.inj (content_eq hnode hnode')
    exact ⟨rfl, hms⟩
  | map hnode' => cases content_eq hnode hnode'

theorem Fits.eq_map (h : Fits nodes made n cell) {ps : List (Nat × Nat)}
    (hnode : nodes[n]? = some ⟨tag, .mapping ps, mark⟩) :
    ∃ es, cell = .map es ∧ List.Forall₂ (fun p e => Enters nodes made p e.1 e.2) ps es := by
  cases h with
  | scalar hnode' => cases content_eq hnode hnode'
  | list hnode' => cases content_eq hnode hnode'
  | map hnode' hes =>
    obtain rfl := Content.mapping.inj (content_eq hnode hnode')
    exact ⟨_, rfl, hes⟩

end

/-- A collection whose members are still to be made. -/
def Waits (nodes : Array Node) (c : Construction) (n : Nat) : Prop :=
  (∃ ms mark ns, nodes[n]? = some ⟨Tag.seq, .sequence ms, mark⟩ ∧ c.cellAt n = some (.list ns)) ∨
    ∃ ps mark es, nodes[n]? = some ⟨Tag.map, .mapping ps, mark⟩ ∧ c.cellAt n = some (.map es)

/-- Every cell is as its node says, or waits in the queue or among those held. -/
structure Inv (nodes : Array Node) (held : List Nat) (c : Construction) : Prop where
  nodes_eq : c.nodes = nodes
  size_eq : c.cells.size = nodes.size
  fits : ∀ n cell, c.cellAt n = some cell → n ∈ c.queue ++ held ∨ Fits nodes c.Made n cell
  waits : ∀ n ∈ c.queue ++ held, Waits nodes c n

/-- What was made stays made, and what waits is paid for by what was not made. -/
structure Advances (c c' : Construction) : Prop where
  made : ∀ n, c.Made n → c'.Made n
  credit : c'.queue.length + c'.unmade ≤ c.queue.length + c.unmade

theorem Advances.refl (c : Construction) : Advances c c := ⟨fun _ h => h, Nat.le_refl _⟩

theorem Advances.trans {c₁ c₂ c₃ : Construction} (h : Advances c₁ c₂) (h' : Advances c₂ c₃) :
    Advances c₁ c₃ :=
  ⟨fun n hn => h'.made n (h.made n hn), Nat.le_trans h'.credit h.credit⟩

/-! ## Seeing a node -/

/-- A reader of scalars looks at the node's mark only to report a fault. -/
theorem read_mark {tag : String} {read : Node → List Char → Except Fault Scalar}
    (h : scalarReader? tag = some read) {t : List Char} {m : Mark} {s : Scalar}
    (hs : read ⟨tag, .scalar t, m⟩ t = .ok s) (m' : Mark) : read ⟨tag, .scalar t, m'⟩ t = .ok s := by
  rw [scalarReader?] at h
  split_ifs at h
  all_goals
    obtain rfl := Option.some.inj h
    first
    | exact hs
    | (simp only at hs ⊢
       split at hs
       · assumption
       · cases hs)

theorem exists_reader {t : List Char} {s : Scalar} (h : Scalar.ofPlain? t = some s) :
    ∃ read, scalarReader? (Scalar.tagOf t) = some read ∧
      ∀ mark, read ⟨Scalar.tagOf t, .scalar t, mark⟩ t = .ok s := by
  obtain ⟨read, hread, hs⟩ := Option.bind_eq_some_iff.mp h
  refine ⟨read, hread, read_mark hread (m := ⟨0, 0, 0⟩) ?_⟩
  cases hresult : read ⟨Scalar.tagOf t, .scalar t, ⟨0, 0, 0⟩⟩ t with
  | ok s' =>
    rw [hresult] at hs
    exact congrArg Except.ok (Option.some.inj hs)
  | error f =>
    rw [hresult] at hs
    cases hs

section Visit

variable (limits : Limits) {nodes : Array Node} {held : List Nat} {c : Construction}

theorem node_eq (h : Inv nodes held c) {n : Nat} {node : Node} (hn : nodes[n]? = some node) :
    c.node n = node := by
  rw [Construction.node, h.nodes_eq, Array.getD_eq_getD_getElem?, hn]
  rfl

theorem textOf_eq (h : Inv nodes held c) {n : Nat} {t : List Char} {tag : String} {mark : Mark}
    (hn : nodes[n]? = some ⟨tag, .scalar t, mark⟩) (fuel : Nat) :
    c.textOf (fuel + 1) n = .ok t := by
  rw [textOf, node_eq h hn]

theorem made_setCell {n : Nat} (hn : n < c.cells.size) (cell : Cell) {m : Nat} (hm : c.Made m) :
    (c.setCell n cell).Made m := by
  rw [Made, cellAt_setCell hn]
  split
  · rfl
  · exact hm

/-- One cell is set; it is as its node says, or waits. -/
theorem Inv.set (h : Inv nodes held c) {n : Nat} (hn : n < nodes.size) {cell : Cell}
    {queue held' : List Nat} (hkeep : ∀ m, m ≠ n → (m ∈ c.queue ++ held ↔ m ∈ queue ++ held'))
    (hfits : n ∈ queue ++ held' ∨ Fits nodes c.Made n cell)
    (hwaits : n ∈ queue ++ held' → Waits nodes (c.setCell n cell) n) :
    Inv nodes held' { c.setCell n cell with queue } := by
  have hsize : n < c.cells.size := by rw [h.size_eq]; exact hn
  have hsame : ∀ m, m ≠ n → (c.setCell n cell).cellAt m = c.cellAt m := by
    intro m hm
    rw [cellAt_setCell hsize, if_neg hm]
  refine ⟨h.nodes_eq, ?_, fun m cell' hm => ?_, fun m hm => ?_⟩
  · show (c.cells.set! n (some cell)).size = _
    rw [Array.set!_eq_setIfInBounds, Array.size_setIfInBounds, h.size_eq]
  · change (c.setCell n cell).cellAt m = some cell' at hm
    by_cases heq : m = n
    · subst heq
      rw [cellAt_setCell hsize, if_pos rfl] at hm
      obtain rfl := Option.some.inj hm
      exact hfits.imp_right (·.mono fun _ => made_setCell hsize cell)
    · rw [hsame m heq] at hm
      rcases h.fits m cell' hm with hin | hfits
      · exact Or.inl ((hkeep m heq).mp hin)
      · exact Or.inr (hfits.mono fun _ => made_setCell hsize cell)
  · by_cases heq : m = n
    · subst heq
      exact hwaits hm
    · have hm' := h.waits m ((hkeep m heq).mpr hm)
      rw [Waits] at hm' ⊢
      change (∃ ms mark ns, _ ∧ (c.setCell n cell).cellAt m = _) ∨
        ∃ ps mark es, _ ∧ (c.setCell n cell).cellAt m = _
      rwa [hsame m heq]

theorem not_waits_of_scalar {n : Nat} {t : List Char} {mark : Mark}
    (hnode : nodes[n]? = some ⟨Scalar.tagOf t, .scalar t, mark⟩) : ¬ Waits nodes c n := by
  rintro (⟨ms, mark', ns, hseq, -⟩ | ⟨ps, mark', es, hmap, -⟩)
  · cases content_eq hnode hseq
  · cases content_eq hnode hmap

theorem visit_scalar (h : Inv nodes held c) {n : Nat} {t : List Char} (ht : TextAt nodes t n) :
    ∃ s c', c.visit limits n = .ok (.scalar s, c') ∧ Inv nodes held c' ∧ Advances c c' ∧ c'.Made n ∧
      Scalar.ofPlain? t = some s := by
  obtain ⟨⟨mark, hnode⟩, hread⟩ := ht
  obtain ⟨s, hs⟩ := Option.isSome_iff_exists.mp hread
  have hn := lt_size_of_getElem? hnode
  have hfresh : n ∉ c.queue ++ held := fun hin => not_waits_of_scalar hnode (h.waits n hin)
  cases hcell : c.cellAt n with
  | some cell =>
    have hvisit : c.visit limits n = .ok (cell, c) := by
      rw [cellAt] at hcell
      rw [visit, hcell]
    have hmade : c.Made n := by rw [Made, hcell]; rfl
    obtain ⟨s', rfl, hs'⟩ := ((h.fits n cell hcell).resolve_left hfresh).eq_scalar hnode
    exact ⟨s', c, hvisit, h, Advances.refl c, hmade, hs'⟩
  | none =>
    have hsize : n < c.cells.size := by rw [h.size_eq]; exact hn
    obtain ⟨read, hreader, hvalue⟩ := exists_reader hs
    have hvisit : c.visit limits n = .ok (.scalar s, c.setCell n (.scalar s)) := by
      have hcell' := hcell
      rw [cellAt] at hcell'
      rw [visit, hcell']
      simp only [node_eq h hnode, hreader, textOf_eq h hnode, bind, Except.bind, hvalue, pure,
        Except.pure]
    refine ⟨s, _, hvisit, ?_, ⟨fun m => made_setCell hsize _, ?_⟩, ?_, hs⟩
    · exact h.set hn (fun m _ => Iff.rfl) (Or.inr (.scalar hnode hs)) fun hin => absurd hin hfresh
    · have hcredit := unmade_setCell hsize hcell (.scalar s)
      show c.queue.length + _ ≤ _
      omega
    · rw [Made, cellAt_setCell hsize, if_pos rfl]
      rfl

theorem visit_collection (h : Inv nodes held c) {n : Nat} {node : Node} {cell : Cell}
    (hnode : nodes[n]? = some node) (hreader : scalarReader? node.tag = none)
    (hempty : emptyCell? node.tag = some cell)
    (hwaits : ∀ c : Construction, c.cellAt n = some cell → Waits nodes c n) :
    ∃ cell c', c.visit limits n = .ok (cell, c') ∧ Inv nodes held c' ∧ Advances c c' ∧ c'.Made n := by
  have hn := lt_size_of_getElem? hnode
  have hsize : n < c.cells.size := by rw [h.size_eq]; exact hn
  cases hcell : c.cellAt n with
  | some cell =>
    have hvisit : c.visit limits n = .ok (cell, c) := by
      rw [cellAt] at hcell
      rw [visit, hcell]
    exact ⟨cell, c, hvisit, h, Advances.refl c, by rw [Made, hcell]; rfl⟩
  | none =>
    have hvisit : c.visit limits n =
        .ok (cell, { c.setCell n cell with queue := c.queue ++ [n] }) := by
      have hcell' := hcell
      rw [cellAt] at hcell'
      rw [visit, hcell']
      simp only [node_eq h hnode, hreader, hempty]
    have hself : (c.setCell n cell).cellAt n = some cell := by rw [cellAt_setCell hsize, if_pos rfl]
    refine ⟨_, _, hvisit, ?_, ⟨fun m => made_setCell hsize _, ?_⟩, ?_⟩
    · refine h.set hn (fun m hm => ?_) (Or.inl (by simp)) fun _ => hwaits _ hself
      simp [hm]
    · have hcredit := unmade_setCell hsize hcell cell
      show (c.queue ++ [n]).length + (c.setCell n cell).unmade ≤ _
      rw [List.length_append, List.length_singleton]
      omega
    · show ((c.setCell n cell).cellAt n).isSome = true
      rw [hself]
      rfl

/-- Seeing a node makes its cell, unless it is made. -/
theorem visit_shows (h : Inv nodes held c) {n : Nat} {v : Layout} (hv : Shows nodes v n) :
    ∃ cell c', c.visit limits n = .ok (cell, c') ∧ Inv nodes held c' ∧ Advances c c' ∧ c'.Made n := by
  cases v with
  | scalar t =>
    rw [Shows] at hv
    obtain ⟨s, c', hvisit, hinv, hadvances, hmade, -⟩ := visit_scalar limits h hv
    exact ⟨_, c', hvisit, hinv, hadvances, hmade⟩
  | items xs =>
    rw [Shows] at hv
    obtain ⟨ms, mark, hnode, -⟩ := hv
    exact visit_collection limits h hnode (by rfl) (by rfl)
      fun c hc => Or.inl ⟨ms, mark, [], hnode, hc⟩
  | fields fs =>
    rw [Shows] at hv
    obtain ⟨ps, mark, hnode, -⟩ := hv
    exact visit_collection limits h hnode (by rfl) (by rfl)
      fun c hc => Or.inr ⟨ps, mark, [], hnode, hc⟩

theorem visit_all (h : Inv nodes held c) {ms : List Nat} (hms : ∀ m ∈ ms, ∃ v, Shows nodes v m) :
    ∃ c', ms.foldlM (fun c item => return (← c.visit limits item).2) c = .ok c' ∧ Inv nodes held c' ∧
      Advances c c' ∧ ∀ m ∈ ms, c'.Made m := by
  induction ms generalizing c with
  | nil => exact ⟨c, rfl, h, Advances.refl c, by simp⟩
  | cons m ms ih =>
    obtain ⟨v, hv⟩ := hms m List.mem_cons_self
    obtain ⟨cell, c₁, hvisit, hinv, hadvances, hmade⟩ := visit_shows limits h hv
    obtain ⟨c₂, hfold, hinv', hadvances', hall⟩ :=
      ih hinv fun y hy => hms y (List.mem_cons_of_mem m hy)
    refine ⟨c₂, ?_, hinv', hadvances.trans hadvances', fun y hy => ?_⟩
    · rw [List.foldlM_cons, hvisit]
      exact hfold
    · rcases List.mem_cons.mp hy with rfl | hy
      · exact hadvances'.made _ hmade
      · exact hall y hy

/-! ## Entries of a mapping -/

theorem ofPlain?_str {t : List Char} (h : Scalar.tagOf t = Tag.str) :
    Scalar.ofPlain? t = some (.str (String.ofList t)) := by
  rw [Scalar.ofPlain?, h]
  rfl

theorem keyOf_scalar (c : Construction) (n : Nat) (s : Scalar) : (c.keyOf limits n s).scalar = s := by
  rw [keyOf]
  split <;> rfl

theorem same_str {a b : Key} {x y : List Char} (ha : a.scalar = .str (String.ofList x))
    (hb : b.scalar = .str (String.ofList y)) (hne : x ≠ y) : a.same b = false := by
  have hne' : String.ofList x ≠ String.ofList y := fun heq => hne (String.ofList_injective heq)
  simp [Key.same, ha, hb, Scalar.sameKey, Scalar.asInt?, hne']

theorem addEntry_eq (h : Inv nodes held c) {n : Nat} {f : Keyed Layout} {p : Nat × Nat}
    (hp : FieldShows nodes n f p) {entries : List (Key × Nat)}
    (hentries : ∀ e ∈ entries, ∃ x, e.1.scalar = .str (String.ofList x) ∧ x ≠ f.key) :
    ∃ k c', addEntry limits (entries, c) p = .ok (entries ++ [(k, p.2)], c') ∧ Inv nodes held c' ∧
      Advances c c' ∧ c'.Made p.2 ∧ k.scalar = .str (String.ofList f.key) := by
  obtain ⟨-, hkey, htag, -, hv⟩ := hp
  obtain ⟨s, c₁, hvisit, hinv, hadvances, -, hs⟩ := visit_scalar limits h hkey
  obtain ⟨cell, c₂, hvisit', hinv', hadvances', hmade⟩ := visit_shows limits hinv hv
  rw [ofPlain?_str htag] at hs
  obtain rfl := Option.some.inj hs
  have hk := keyOf_scalar limits c₂ p.1 (.str (String.ofList f.key))
  refine ⟨_, c₂, ?_, hinv', hadvances.trans hadvances', hmade, hk⟩
  have hnone : (entries.any fun e =>
      e.1.same (c₂.keyOf limits p.1 (.str (String.ofList f.key)))) = false := by
    rw [List.any_eq_false]
    intro e he
    obtain ⟨x, hx, hne⟩ := hentries e he
    rw [same_str hx hk hne]
    simp
  rw [addEntry]
  simp only [hvisit, bind, Except.bind, hvisit', pure, Except.pure]
  rw [insert, if_neg (by rw [hnone]; simp)]

theorem addEntry_all (h : Inv nodes held c) {n : Nat} {fs : List (Keyed Layout)}
    {ps : List (Nat × Nat)} (hps : List.Forall₂ (FieldShows nodes n) fs ps)
    (hnodup : (fs.map (·.key)).Nodup) (entries : List (Key × Nat))
    (hentries : ∀ e ∈ entries, ∃ x, e.1.scalar = .str (String.ofList x) ∧ x ∉ fs.map (·.key)) :
    ∃ es c', ps.foldlM (addEntry limits) (entries, c) = .ok (entries ++ es, c') ∧ Inv nodes held c' ∧
      Advances c c' ∧ List.Forall₂ (fun p e => Enters nodes c'.Made p e.1.scalar e.2) ps es := by
  induction hps generalizing c entries with
  | nil => exact ⟨[], c, by rw [List.append_nil]; rfl, h, Advances.refl c, .nil⟩
  | @cons f p fs ps hp hps ih =>
    rw [List.map_cons, List.nodup_cons] at hnodup
    obtain ⟨k, c₁, hadd, hinv, hadvances, hmade, hk⟩ := addEntry_eq limits h hp
      fun e he => by
        obtain ⟨x, hx, hnot⟩ := hentries e he
        exact ⟨x, hx, fun heq => hnot (by rw [heq]; exact List.mem_cons_self)⟩
    obtain ⟨es, c₂, hfold, hinv', hadvances', hall⟩ := ih hinv hnodup.2 (entries ++ [(k, p.2)])
      fun e he => by
        rcases List.mem_append.mp he with he | he
        · obtain ⟨x, hx, hnot⟩ := hentries e he
          exact ⟨x, hx, fun hin => hnot (List.mem_cons_of_mem _ hin)⟩
        · rw [List.mem_singleton.mp he]
          exact ⟨f.key, hk, hnodup.1⟩
    refine ⟨(k, p.2) :: es, c₂, ?_, hinv', hadvances.trans hadvances', .cons ?_ hall⟩
    · rw [List.foldlM_cons, hadd]
      simpa [bind, Except.bind] using hfold
    · exact ⟨rfl, hadvances'.made _ hmade, f.key, hp.2.1, hk⟩

theorem settleValueKeys_eq (h : Inv nodes held c) {ps : List (Nat × Nat)}
    (hps : ∀ p ∈ ps, ∃ text mark, nodes[p.1]? = some ⟨Tag.str, .scalar text, mark⟩) :
    c.settleValueKeys ps = c := by
  have hfold : ∀ qs : List (Nat × Nat), (∀ p ∈ qs, p ∈ ps) →
      qs.foldl (fun nodes pair => nodes.modify pair.1 fun node =>
        if node.tag = Tag.value then { node with tag := Tag.str } else node) nodes = nodes := by
    intro qs hqs
    induction qs with
    | nil => rfl
    | cons p qs ih =>
      obtain ⟨text, mark, hnode⟩ := hps p (hqs p List.mem_cons_self)
      have hsame : (nodes.modify p.1 fun node =>
          if node.tag = Tag.value then { node with tag := Tag.str } else node) = nodes := by
        apply Array.ext_getElem?
        intro i
        rw [Array.getElem?_modify]
        split
        case isTrue heq =>
          rw [← heq, hnode]
          rfl
        case isFalse => rfl
      rw [List.foldl_cons, hsame]
      exact ih fun q hq => hqs q (List.mem_cons_of_mem p hq)
  have hnodes := hfold ps fun p hp => hp
  rw [settleValueKeys, h.nodes_eq, hnodes, ← h.nodes_eq]

/-- Without merge keys a mapping is taken as it is. -/
theorem entriesOf_eq (h : Inv nodes held c) {n : Nat} {fs : List (Keyed Layout)}
    {ps : List (Nat × Nat)} {mark : Mark} (hnode : nodes[n]? = some ⟨Tag.map, .mapping ps, mark⟩)
    (hps : List.Forall₂ (FieldShows nodes n) fs ps) (hnodup : (fs.map (·.key)).Nodup) :
    ∃ es c', c.entriesOf limits n = .ok (es, c') ∧ Inv nodes held c' ∧ Advances c c' ∧
      List.Forall₂ (fun p e => Enters nodes c'.Made p e.1 e.2) ps es := by
  have hkeys : ∀ p ∈ ps, ∃ text mark, nodes[p.1]? = some ⟨Tag.str, .scalar text, mark⟩ := by
    intro p hp
    obtain ⟨f, -, -, ⟨⟨mark, hat⟩, -⟩, htag, -⟩ := exists_left_of_mem hps hp
    rw [htag] at hat
    exact ⟨f.key, mark, hat⟩
  have hpairs : c.pairsOf n = ps := by rw [pairsOf, node_eq h hnode]
  have hflatten : flatten (c.mergeCount + 1) limits.chain n [] c = .ok c := by
    have hnone : ps.find? c.isMerge = none := by
      rw [List.find?_eq_none]
      intro p hp
      obtain ⟨text, mark, hat⟩ := hkeys p hp
      rw [isMerge, node_eq h hat]
      show ¬ (Tag.str == Tag.merge) = true
      decide
    rw [flatten, hpairs, hnone]
    simp only [settleValueKeys_eq h hkeys, List.isEmpty_nil, if_true]
  obtain ⟨es, c', hfold, hinv, hadvances, hes⟩ := addEntry_all limits h hps hnodup [] (by simp)
  refine ⟨es.map fun e => (e.1.scalar, e.2), c', ?_, hinv, hadvances, ?_⟩
  · rw [entriesOf, node_eq h hnode]
    simp only [hflatten, bind, Except.bind, hpairs, hfold, List.nil_append, pure, Except.pure]
  · rw [List.forall₂_map_right_iff]
    exact hes

/-! ## Filling collections -/

/-- The members of a sequence stand for layouts. -/
theorem shows_of_sequence (hall : ∀ i < nodes.size, ∃ v, Shows nodes v i) {n : Nat} {ms : List Nat}
    {mark : Mark} (hnode : nodes[n]? = some ⟨Tag.seq, .sequence ms, mark⟩) :
    ∀ m ∈ ms, ∃ v, Shows nodes v m := by
  obtain ⟨v, hv⟩ := hall n (lt_size_of_getElem? hnode)
  cases v with
  | scalar t =>
    rw [Shows] at hv
    obtain ⟨⟨mark', hnode'⟩, -⟩ := hv
    cases content_eq hnode hnode'
  | fields fs =>
    rw [Shows] at hv
    obtain ⟨ps, mark', hnode', -⟩ := hv
    cases content_eq hnode hnode'
  | items xs =>
    rw [Shows] at hv
    obtain ⟨ms', mark', hnode', hshow⟩ := hv
    obtain rfl := Content.sequence.inj (content_eq hnode hnode')
    intro m hm
    obtain ⟨x, -, -, hx⟩ := exists_left_of_mem (itemsShow_iff.mp hshow) hm
    exact ⟨x.value, hx⟩

theorem shows_of_mapping (hall : ∀ i < nodes.size, ∃ v, Shows nodes v i) {n : Nat}
    {ps : List (Nat × Nat)} {mark : Mark}
    (hnode : nodes[n]? = some ⟨Tag.map, .mapping ps, mark⟩) :
    ∃ fs : List (Keyed Layout), List.Forall₂ (FieldShows nodes n) fs ps ∧ (fs.map (·.key)).Nodup := by
  obtain ⟨v, hv⟩ := hall n (lt_size_of_getElem? hnode)
  cases v with
  | scalar t =>
    rw [Shows] at hv
    obtain ⟨⟨mark', hnode'⟩, -⟩ := hv
    cases content_eq hnode hnode'
  | items xs =>
    rw [Shows] at hv
    obtain ⟨ms, mark', hnode', -⟩ := hv
    cases content_eq hnode hnode'
  | fields fs =>
    rw [Shows] at hv
    obtain ⟨ps', mark', hnode', hnodup, hshow⟩ := hv
    obtain rfl := Content.mapping.inj (content_eq hnode hnode')
    exact ⟨fs, fieldsShow_iff.mp hshow, hnodup⟩

/-- A held collection gets the cell its node says. -/
theorem complete {n : Nat} (h : Inv nodes [n] c) (hn : n < nodes.size) {cell : Cell}
    (hfits : Fits nodes c.Made n cell)
    (hwaits : ∀ c : Construction, c.cellAt n = some cell → Waits nodes c n) :
    Inv nodes [] (c.setCell n cell) ∧ Advances c (c.setCell n cell) := by
  have hsize : n < c.cells.size := by rw [h.size_eq]; exact hn
  have hself : (c.setCell n cell).cellAt n = some cell := by rw [cellAt_setCell hsize, if_pos rfl]
  refine ⟨h.set hn (fun m hm => by simp [hm]) (Or.inr hfits) fun _ => hwaits _ hself,
    fun m => made_setCell hsize cell, ?_⟩
  have hmade : c.Made n := by
    rcases h.waits n (by simp) with ⟨-, -, ns, -, hcell⟩ | ⟨-, -, es, -, hcell⟩
    · rw [Made, hcell]; rfl
    · rw [Made, hcell]; rfl
  have hget : c.cells[n].isSome = true := by
    rwa [Made, cellAt, Array.getD_eq_getD_getElem?, Array.getElem?_eq_getElem hsize,
      Option.getD_some] at hmade
  have hunmade : (c.setCell n cell).unmade = c.unmade := by
    rw [unmade, unmade, setCell, Array.set!_eq_setIfInBounds, Array.setIfInBounds, dif_pos hsize,
      Array.countP_set]
    simp [Option.isNone_eq_false_iff.mpr hget]
  rw [hunmade]
  exact Nat.le_refl _

/-- A held collection is filled with its members. -/
theorem fill_spec {n : Nat} (h : Inv nodes [n] c) (hall : ∀ i < nodes.size, ∃ v, Shows nodes v i) :
    ∃ c', c.fill limits n = .ok c' ∧ Inv nodes [] c' ∧ Advances c c' := by
  rcases h.waits n (by simp) with ⟨ms, mark, ns, hnode, hcell⟩ | ⟨ps, mark, es, hnode, hcell⟩
  · obtain ⟨c', hfold, hinv, hadvances, hmade⟩ := visit_all limits h (shows_of_sequence hall hnode)
    obtain ⟨hinv', hadvances'⟩ := complete hinv (lt_size_of_getElem? hnode) (.list hnode hmade)
      fun c hc => Or.inl ⟨ms, mark, ms, hnode, hc⟩
    refine ⟨_, ?_, hinv', hadvances.trans hadvances'⟩
    rw [cellAt] at hcell
    rw [fill, hcell]
    simp only [node_eq h hnode]
    rw [hfold]
    rfl
  · obtain ⟨fs, hps, hnodup⟩ := shows_of_mapping hall hnode
    obtain ⟨es', c', hentries, hinv, hadvances, hes⟩ := entriesOf_eq limits h hnode hps hnodup
    obtain ⟨hinv', hadvances'⟩ := complete hinv (lt_size_of_getElem? hnode) (.map hnode hes)
      fun c hc => Or.inr ⟨ps, mark, es', hnode, hc⟩
    refine ⟨_, ?_, hinv', hadvances.trans hadvances'⟩
    rw [cellAt] at hcell
    rw [fill, hcell]
    simp only [hentries]
    rfl

theorem drain_spec (hall : ∀ i < nodes.size, ∃ v, Shows nodes v i) {fuel : Nat}
    (h : Inv nodes [] c) (hfuel : c.queue.length + c.unmade ≤ fuel) :
    ∃ c', drain limits fuel c = .ok c' ∧ Inv nodes [] c' ∧ c'.queue = [] ∧
      ∀ n, c.Made n → c'.Made n := by
  induction fuel generalizing c with
  | zero =>
    have hqueue : c.queue = [] := List.length_eq_zero_iff.mp (by omega)
    exact ⟨c, rfl, h, hqueue, fun _ hn => hn⟩
  | succ fuel ih =>
    cases hqueue : c.queue with
    | nil => exact ⟨c, by rw [drain, hqueue], h, hqueue, fun _ hn => hn⟩
    | cons n ns =>
      have hheld : Inv nodes [n] { c with queue := ns } := by
        refine ⟨h.nodes_eq, h.size_eq, fun m cell hm => ?_, fun m hm => ?_⟩
        · refine (h.fits m cell hm).imp_left fun hin => ?_
          rw [hqueue] at hin
          simp only [List.mem_append, List.mem_cons, List.not_mem_nil, or_false] at hin ⊢
          exact hin.symm
        · refine h.waits m ?_
          rw [hqueue]
          simp only [List.mem_append, List.mem_cons, List.not_mem_nil, or_false] at hm ⊢
          exact hm.symm
      obtain ⟨c₁, hfill, hinv, hadvances⟩ := fill_spec limits hheld hall
      have hcredit := hadvances.credit
      rw [hqueue, List.length_cons] at hfuel
      obtain ⟨c₂, hdrain, hinv', hempty, hmade⟩ := ih hinv (by
        change c₁.queue.length + c₁.unmade ≤ ns.length + c.unmade at hcredit
        omega)
      refine ⟨c₂, ?_, hinv', hempty, fun m hm => hmade m (hadvances.made m hm)⟩
      rw [drain, hqueue]
      simp only [hfill, bind, Except.bind]
      exact hdrain

end Visit

end Construction

/-- The value of a graph whose nodes stand for layouts: every cell made is as its node says. -/
theorem Value.ofGraph_eq (limits : Limits) {nodes : Array Node} {root : Nat} {v : Layout}
    (hall : ∀ i < nodes.size, ∃ v, Shows nodes v i) (hroot : Shows nodes v root) :
    ∃ (cells : Array Cell) (made : Nat → Prop),
      Value.ofGraph limits ⟨nodes, root⟩ = .ok ⟨cells, root⟩ ∧ cells.size = nodes.size ∧ made root ∧
      ∀ n, made n → Construction.Fits nodes made n (cells.getD n (.scalar .null)) := by
  obtain ⟨c, hc⟩ : ∃ c : Construction, c = ⟨nodes, nodes.map fun _ => none, []⟩ := ⟨_, rfl⟩
  have hnone : ∀ n, c.cellAt n = none := by
    intro n
    rw [hc, Construction.cellAt, Array.getD_eq_getD_getElem?, Array.getElem?_map]
    cases nodes[n]? <;> rfl
  have hinv : Construction.Inv nodes [] c := by
    refine ⟨by rw [hc], by rw [hc, Array.size_map], fun n cell hn => ?_, fun n hn => ?_⟩
    · rw [hnone] at hn
      cases hn
    · rw [hc] at hn
      cases hn
  obtain ⟨cell, c₁, hvisit, hinv₁, hadvances, hmade⟩ := Construction.visit_shows limits hinv hroot
  have hcredit : c₁.queue.length + c₁.unmade ≤ nodes.size + 1 := by
    have hle := hadvances.credit
    have hunmade : c.unmade ≤ nodes.size := by
      rw [Construction.unmade, ← hinv.size_eq]
      exact Array.countP_le_size
    have hqueue : c.queue.length = 0 := by rw [hc]; rfl
    omega
  obtain ⟨c₂, hdrain, hinv₂, hempty, hmade₂⟩ := Construction.drain_spec limits hall hinv₁ hcredit
  refine ⟨c₂.cells.map (·.getD (.scalar .null)), c₂.Made, ?_, ?_, hmade₂ root hmade, fun n hn => ?_⟩
  · rw [Value.ofGraph]
    simp only [← hc, hvisit, bind, Except.bind, hdrain, pure, Except.pure]
  · rw [Array.size_map, hinv₂.size_eq]
  · obtain ⟨cell, hcell⟩ := Option.isSome_iff_exists.mp hn
    have hget : (c₂.cells.map (·.getD (.scalar .null))).getD n (.scalar .null) = cell := by
      rw [Construction.cellAt, Array.getD_eq_getD_getElem?] at hcell
      rw [Array.getD_eq_getD_getElem?, Array.getElem?_map]
      cases hat : c₂.cells[n]? with
      | none => rw [hat] at hcell; cases hcell
      | some o =>
        rw [hat, Option.getD_some] at hcell
        rw [hcell]
        rfl
    rw [hget]
    refine (hinv₂.fits n cell hcell).resolve_left ?_
    rw [hempty]
    simp

end Yaml
end TalkDeck
