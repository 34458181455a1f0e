import TalkDeck.Proofs.Yaml.Layout

/-
Texts with more blanks than they need.

Before a line ends, and before the text does, any blanks and any lines of blanks can stand without
being read.  `Loosens cs ds` says that `ds` is `cs` with such blanks in it; the files after this one
read a layout from every text that loosens its own.
-/

namespace TalkDeck
namespace Yaml
namespace Layout

/-- Lines of blanks, each with its line end. -/
def emptyLines (ns : List Nat) : List Char := ns.flatMap fun n => blanks n ++ ['\n']

@[simp]
theorem emptyLines_nil : emptyLines [] = [] := rfl

@[simp]
theorem emptyLines_cons (n : Nat) (ns : List Nat) :
    emptyLines (n :: ns) = blanks n ++ '\n' :: emptyLines ns := by
  simp [emptyLines]

/-- The second text is the first with blanks and lines of blanks before the ends of its lines. -/
inductive Loosens : List Char → List Char → Prop where
  | stop (ns : List Nat) (n : Nat) : Loosens [] (emptyLines ns ++ blanks n)
  | line {ns : List Nat} {cs ds : List Char} (hns : ns ≠ []) (h : Loosens cs ds) :
    Loosens ('\n' :: cs) (emptyLines ns ++ ds)
  | char {c : Char} {cs ds : List Char} (hc : c ≠ '\n') (h : Loosens cs ds) :
    Loosens (c :: cs) (c :: ds)

variable {cs ds es u : List Char}

theorem Loosens.refl (cs : List Char) : Loosens cs cs := by
  induction cs with
  | nil => exact .stop [] 0
  | cons c cs ih =>
    by_cases hc : c = '\n'
    · subst hc
      exact .line (List.cons_ne_nil 0 []) ih
    · exact .char hc ih

/-- Within a line nothing is added. -/
theorem loosens_cons_iff {c : Char} (hc : c ≠ '\n') :
    Loosens (c :: cs) es ↔ ∃ ds, es = c :: ds ∧ Loosens cs ds := by
  constructor
  · intro h
    cases h with
    | line => exact absurd rfl hc
    | char _ h => exact ⟨_, rfl, h⟩
  · rintro ⟨ds, rfl, h⟩
    exact .char hc h

theorem loosens_append_iff (hu : ∀ c ∈ u, c ≠ '\n') :
    Loosens (u ++ cs) es ↔ ∃ ds, es = u ++ ds ∧ Loosens cs ds := by
  induction u generalizing es with
  | nil => simp
  | cons c u ih =>
    have hrest : ∀ {fs}, Loosens (u ++ cs) fs ↔ _ := ih fun d hd => hu d (List.mem_cons_of_mem c hd)
    rw [List.cons_append, loosens_cons_iff (hu c List.mem_cons_self)]
    constructor
    · rintro ⟨_, rfl, h⟩
      obtain ⟨ds, rfl, hds⟩ := hrest.mp h
      exact ⟨ds, rfl, hds⟩
    · rintro ⟨ds, rfl, hds⟩
      exact ⟨u ++ ds, rfl, hrest.mpr ⟨ds, rfl, hds⟩⟩

theorem Loosens.append (h : Loosens cs ds) (hu : ∀ c ∈ u, c ≠ '\n') : Loosens (u ++ cs) (u ++ ds) :=
  (loosens_append_iff hu).mpr ⟨ds, rfl, h⟩

theorem ne_newline_of_mem_blanks {n : Nat} : ∀ c ∈ blanks n, c ≠ '\n' := by
  intro c hc
  rw [List.eq_of_mem_replicate hc]
  decide

theorem blanks_append_emptyLines (n : Nat) {ns : List Nat} (hns : ns ≠ []) :
    ∃ ms, ms ≠ [] ∧ blanks n ++ emptyLines ns = emptyLines ms := by
  obtain ⟨k, ns, rfl⟩ := List.exists_cons_of_ne_nil hns
  exact ⟨(n + k) :: ns, List.cons_ne_nil _ _, by simp [blanks_add]⟩

/-- Where a line ends, a gap takes the place of the line end and the blanks before it. -/
theorem Loosens.exists_gap {n d : Nat} (h : Loosens (blanks n ++ '\n' :: (blanks d ++ cs)) es) :
    ∃ ns ds, ns ≠ [] ∧ es = emptyLines ns ++ (blanks d ++ ds) ∧ Loosens cs ds := by
  obtain ⟨rest, rfl, hrest⟩ := (loosens_append_iff ne_newline_of_mem_blanks).mp h
  generalize hline : '\n' :: (blanks d ++ cs) = ls at hrest
  cases hrest with
  | stop => cases hline
  | char hc => exact absurd (List.cons.inj hline).1.symm hc
  | line hns h =>
    obtain rfl := (List.cons.inj hline).2
    obtain ⟨ds, rfl, hds⟩ := (loosens_append_iff ne_newline_of_mem_blanks).mp h
    obtain ⟨ms, hms, heq⟩ := blanks_append_emptyLines n hns
    exact ⟨ms, ds, hms, by rw [← List.append_assoc, heq], hds⟩

/-- At the end of the text there is nothing but a gap. -/
theorem Loosens.exists_end {n : Nat} (h : Loosens (blanks n) es) :
    ∃ ns d, es = emptyLines ns ++ blanks d := by
  rw [← List.append_nil (blanks n)] at h
  obtain ⟨rest, rfl, hrest⟩ := (loosens_append_iff ne_newline_of_mem_blanks).mp h
  cases hrest with
  | stop ns d =>
    by_cases hns : ns = []
    · subst hns
      exact ⟨[], n + d, by rw [emptyLines_nil, List.nil_append, List.nil_append, blanks_add]⟩
    · obtain ⟨ms, -, heq⟩ := blanks_append_emptyLines n hns
      exact ⟨ms, d, by rw [← List.append_assoc, heq]⟩

/-- A gap is nothing, or it opens with a blank or a line end. -/
theorem gap_cases (ns : List Nat) (d : Nat) (cs : List Char) :
    (ns = [] ∧ d = 0) ∨
      ∃ c r, emptyLines ns ++ (blanks d ++ cs) = c :: r ∧ (c = ' ' ∨ c = '\n') := by
  cases ns with
  | nil =>
    cases d with
    | zero => exact Or.inl ⟨rfl, rfl⟩
    | succ d => exact Or.inr ⟨' ', blanks d ++ cs, rfl, Or.inl rfl⟩
  | cons n ns =>
    right
    cases n with
    | zero => exact ⟨'\n', emptyLines ns ++ (blanks d ++ cs), by simp [blanks], Or.inr rfl⟩
    | succ n =>
      refine ⟨' ', blanks n ++ '\n' :: (emptyLines ns ++ (blanks d ++ cs)), ?_, Or.inl rfl⟩
      simp [blanks, List.replicate_succ]

/-- Characters that stand in no gap were there before. -/
theorem Loosens.prefix_of_prefix (h : Loosens cs ds) (hu : ∀ c ∈ u, c ≠ ' ' ∧ c ≠ '\n')
    (hds : u <+: ds) : u <+: cs := by
  induction u generalizing cs ds with
  | nil => exact List.nil_prefix
  | cons c u ih =>
    obtain ⟨r, rfl⟩ := hds
    obtain ⟨hspace, hnewline⟩ := hu c List.mem_cons_self
    have hgap : ∀ ns n es, emptyLines ns ++ (blanks n ++ es) = c :: u ++ r → ns = [] ∧ n = 0 := by
      intro ns n es heq
      refine (gap_cases ns n es).resolve_right ?_
      rintro ⟨a, q, hfirst, ha⟩
      rw [heq] at hfirst
      obtain rfl := (List.cons.inj hfirst).1
      exact ha.elim hspace hnewline
    generalize heq : c :: u ++ r = es at h
    cases h with
    | stop ns n =>
      obtain ⟨rfl, rfl⟩ := hgap ns n [] (by rw [List.append_nil, heq])
      cases heq
    | @line ns cs ds hns h => exact absurd (hgap ns 0 ds (by rw [heq]; rfl)).1 hns
    | char hc h =>
      obtain ⟨rfl, rfl⟩ := List.cons.inj heq
      exact List.cons_prefix_cons.mpr ⟨rfl, ih h (fun d hd => hu d (List.mem_cons_of_mem _ hd))
        (List.prefix_append _ _)⟩

/-- Where there is a gap, there is one still. -/
theorem Loosens.isWideGap_headD (h : Loosens cs ds) (hcs : isWideGap (cs.headD nul) = true) :
    isWideGap (ds.headD nul) = true := by
  have hgap : ∀ c r, c = ' ' ∨ c = '\n' → isWideGap ((c :: r).headD nul) = true := by
    rintro c r (rfl | rfl) <;> rfl
  cases h with
  | stop ns n =>
    rcases gap_cases ns n [] with ⟨rfl, rfl⟩ | ⟨c, r, heq, hc⟩
    · rfl
    · rw [List.append_nil] at heq
      rw [heq]
      exact hgap c r hc
  | @line ns cs ds hns h =>
    obtain ⟨c, r, heq, hc⟩ := (gap_cases ns 0 ds).resolve_left fun hnone => hns hnone.1
    rw [show emptyLines ns ++ ds = c :: r from heq]
    exact hgap c r hc
  | char => exact hcs

/-- Only blanks and line ends are added. -/
theorem Loosens.mem (h : Loosens cs ds) {c : Char} (hc : c ∈ ds) : c ∈ cs ∨ c = ' ' ∨ c = '\n' := by
  have hempty : ∀ ns : List Nat, c ∈ emptyLines ns → c = ' ' ∨ c = '\n' := by
    intro ns hns
    obtain ⟨n, -, hn⟩ := List.mem_flatMap.mp hns
    rcases List.mem_append.mp hn with hn | hn
    · exact Or.inl (List.eq_of_mem_replicate hn)
    · exact Or.inr (List.mem_singleton.mp hn)
  induction h with
  | stop ns n =>
    rcases List.mem_append.mp hc with hc | hc
    · exact Or.inr (hempty ns hc)
    · exact Or.inr (Or.inl (List.eq_of_mem_replicate hc))
  | line hns h ih =>
    rcases List.mem_append.mp hc with hc | hc
    · exact Or.inr (hempty _ hc)
    · exact (ih hc).imp_left (List.mem_cons_of_mem _)
  | char _ h ih =>
    rcases List.mem_cons.mp hc with rfl | hc
    · exact Or.inl List.mem_cons_self
    · exact (ih hc).imp_left (List.mem_cons_of_mem _)

/-! ## Lines -/

/-- A text that ends, or whose line does. -/
def LineEnds (cs : List Char) : Prop := cs = [] ∨ ∃ r, cs = '\n' :: r

theorem lineEnds_flat (ls : List Line) : LineEnds (flat ls) := by
  cases ls with
  | nil => exact Or.inl rfl
  | cons l ls => exact Or.inr ⟨_, rfl⟩

theorem not_lineEnds_cons {c : Char} (hc : c ≠ '\n') : ¬ LineEnds (c :: cs) := by
  rintro (hnil | ⟨r, hr⟩)
  · cases hnil
  · exact hc (List.cons.inj hr).1

/-- Blanks can be added before the end of a line, -/
theorem Loosens.pad (h : Loosens cs ds) (hcs : LineEnds cs) (n : Nat) : Loosens cs (blanks n ++ ds) := by
  cases h with
  | stop ns d =>
    by_cases hns : ns = []
    · subst hns
      rw [emptyLines_nil, List.nil_append, ← blanks_add]
      exact .stop [] (n + d)
    · obtain ⟨ms, -, heq⟩ := blanks_append_emptyLines n hns
      rw [← List.append_assoc, heq]
      exact .stop ms d
  | line hns h =>
    obtain ⟨ms, hms, heq⟩ := blanks_append_emptyLines n hns
    rw [← List.append_assoc, heq]
    exact .line hms h
  | char hc => exact absurd hcs (not_lineEnds_cons hc)

/-- and so can line ends. -/
theorem Loosens.newline (h : Loosens cs ds) (hcs : LineEnds cs) : Loosens cs ('\n' :: ds) := by
  cases h with
  | stop ns d => exact .stop (0 :: ns) d
  | @line ns _ _ hns h => exact .line (List.cons_ne_nil 0 ns) h
  | char hc => exact absurd hcs (not_lineEnds_cons hc)

/-- The second lines are the first with blanks behind them and lines of blanks among them. -/
inductive Spread : List Line → List Line → Prop where
  | nil : Spread [] []
  | line {ls ms : List Line} (l : Line) (n : Nat) (h : Spread ls ms) :
    Spread (l :: ls) ((l ++ blanks n) :: ms)
  | blank {ls ms : List Line} (n : Nat) (h : Spread ls ms) : Spread ls (blanks n :: ms)

namespace Spread

variable {ls ms ls' ms' : List Line}

theorem refl (ls : List Line) : Spread ls ls := by
  induction ls with
  | nil => exact .nil
  | cons l ls ih =>
    have h := ih.line l 0
    rwa [show blanks 0 = [] from rfl, List.append_nil] at h

theorem append (h : Spread ls ms) (h' : Spread ls' ms') : Spread (ls ++ ls') (ms ++ ms') := by
  induction h with
  | nil => exact h'
  | line l n _ ih => exact ih.line l n
  | blank n _ ih => exact ih.blank n

theorem ne_nil (h : Spread ls ms) (hne : ls ≠ []) : ms ≠ [] := by
  cases h with
  | nil => exact absurd rfl hne
  | line => exact List.cons_ne_nil _ _
  | blank => exact List.cons_ne_nil _ _

/-- Each of the second lines is a line of blanks, or one of the first with blanks behind it. -/
theorem of_mem (h : Spread ls ms) {m : Line} (hm : m ∈ ms) :
    ∃ n, m = blanks n ∨ ∃ l ∈ ls, m = l ++ blanks n := by
  induction h with
  | nil => cases hm
  | line l n _ ih =>
    rcases List.mem_cons.mp hm with rfl | hm
    · exact ⟨n, Or.inr ⟨l, List.mem_cons_self, rfl⟩⟩
    · obtain ⟨k, hk⟩ := ih hm
      exact ⟨k, hk.imp_right fun ⟨l', hl', heq⟩ => ⟨l', List.mem_cons_of_mem l hl', heq⟩⟩
  | blank n _ ih =>
    rcases List.mem_cons.mp hm with rfl | hm
    · exact ⟨n, Or.inl rfl⟩
    · exact ih hm

theorem exists_mem (h : Spread ls ms) {l : Line} (hl : l ∈ ls) : ∃ n, l ++ blanks n ∈ ms := by
  induction h with
  | nil => cases hl
  | line l n _ ih =>
    rcases List.mem_cons.mp hl with rfl | hl
    · exact ⟨n, List.mem_cons_self⟩
    · obtain ⟨k, hk⟩ := ih hl
      exact ⟨k, List.mem_cons_of_mem _ hk⟩
  | blank n _ ih =>
    obtain ⟨k, hk⟩ := ih hl
    exact ⟨k, List.mem_cons_of_mem _ hk⟩

theorem newline_not_mem (h : Spread ls ms) (hls : ∀ l ∈ ls, '\n' ∉ l) : ∀ m ∈ ms, '\n' ∉ m := by
  intro m hm hnewline
  obtain ⟨n, rfl | ⟨l, hl, rfl⟩⟩ := h.of_mem hm
  · exact ne_newline_of_mem_blanks _ hnewline rfl
  · rcases List.mem_append.mp hnewline with hnewline | hnewline
    · exact hls l hl hnewline
    · exact ne_newline_of_mem_blanks _ hnewline rfl

theorem loosens (h : Spread ls ms) (hls : ∀ l ∈ ls, '\n' ∉ l) : Loosens (flat ls) (flat ms) := by
  induction h with
  | nil => exact .refl []
  | @line ls ms l n _ ih =>
    obtain ⟨hl, hls⟩ := List.forall_mem_cons.mp hls
    have hline : ∀ c ∈ l, c ≠ '\n' := by
      rintro c hc rfl
      exact hl hc
    have hrest := ((ih hls).pad (lineEnds_flat ls) n).append hline
    rw [flat_cons, flat_cons, List.append_assoc]
    exact .line (List.cons_ne_nil 0 []) hrest
  | @blank ls ms n _ ih => exact ((ih hls).pad (lineEnds_flat ls) n).newline (lineEnds_flat ls)

end Spread

end Layout
end Yaml
end TalkDeck
