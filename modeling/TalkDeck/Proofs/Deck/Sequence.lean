import TalkDeck.Proofs.Deck.Laid

/-
Sequences whose steps open with their types.

A form describes the layout of such a sequence: the fields before and after `steps`, and for each
step its type and its other fields.  In an aligned form no other line is one that starts a step, so
the lines of a step are one group of the block's lines, with the index of the step
(`getElem?_groups_form`), and the step of that index in the block is made of these lines and of the
member they stand for (`Lays.exists_step`).
-/

namespace TalkDeck

open Yaml Layout

namespace Yaml.Layout

/-- A step that opens with its type, the blanks after its dash and after the colon of its type, and
its other fields. -/
structure StepForm where
  gap : Nat
  typeGap : Nat
  type : List Char
  rest : List (Keyed Layout)

namespace StepForm

def fields (m : StepForm) : List (Keyed Layout) :=
  ⟨"type".toList, m.typeGap, .scalar m.type⟩ :: m.rest

def item (m : StepForm) : Dashed Layout := ⟨m.gap, .fields m.fields⟩

/-- Where the keys of the step stand, with its dash in column `c`. -/
def column (c : Nat) (m : StepForm) : Nat := c + 1 + m.gap

/-- The line of the dash up to the type. -/
def lead (c : Nat) (m : StepForm) : Line :=
  blanks c ++ '-' :: (blanks m.gap ++ (Line.typeWord ++ blanks m.typeGap))

def lines (c : Nat) (m : StepForm) : List Line :=
  (m.lead c ++ m.type) :: fieldLines (m.column c) m.rest

theorem lead_append (c : Nat) (m : StepForm) (t : List Char) :
    m.lead c ++ t =
      blanks c ++ '-' :: (blanks m.gap ++ (Line.typeWord ++ (blanks m.typeGap ++ t))) := by
  simp [lead]

theorem length_lead (c : Nat) (m : StepForm) : (m.lead c).length = m.column c + 5 + m.typeGap := by
  simp only [lead, List.length_append, List.length_cons, length_blanks, column]
  have htype : Line.typeWord.length = 5 := rfl
  omega

end StepForm

/-- A sequence: its steps, and the fields before and after them. -/
structure SequenceForm where
  before : List (Keyed Layout)
  gap : Nat
  steps : List StepForm
  after : List (Keyed Layout)

namespace SequenceForm

def stepsField (q : SequenceForm) : Keyed Layout :=
  ⟨"steps".toList, q.gap, .items (q.steps.map (·.item))⟩

def fields (q : SequenceForm) : List (Keyed Layout) := q.before ++ q.stepsField :: q.after

/-- The lines above a step, given the steps before it. -/
def above (q : SequenceForm) (ms : List StepForm) : List Line :=
  fieldLines 0 q.before ++ "steps:".toList :: ms.flatMap (·.lines q.gap)

/-- The lines below those of a step that count as its own, given the steps after it: those after the
last step. -/
def belowLast (q : SequenceForm) (ms : List StepForm) : List Line :=
  if ms.isEmpty then fieldLines 0 q.after else []

end SequenceForm

/-- No line starts a step. -/
def Quiet (ls : List Line) : Prop := ∀ l ∈ ls, l.isStepStart = false

/-- The lines that start a step are those of the steps. -/
structure SequenceForm.Aligned (q : SequenceForm) : Prop where
  before : Quiet (fieldLines 0 q.before)
  rest : ∀ m ∈ q.steps, Quiet (fieldLines (m.column q.gap) m.rest)
  after : Quiet (fieldLines 0 q.after)

theorem SequenceForm.mem_steps {q : SequenceForm} {ms₁ ms₂ : List StepForm} {m : StepForm}
    (h : q.steps = ms₁ ++ m :: ms₂) : m ∈ q.steps := by
  rw [h]
  exact List.mem_append_right _ List.mem_cons_self

theorem itemLines_steps (c : Nat) (ms : List StepForm) :
    itemLines c (ms.map (·.item)) = ms.flatMap (·.lines c) := by
  induction ms with
  | nil => rw [List.map_nil, itemLines]; rfl
  | cons m ms ih =>
    have hlead : (blanks (c + 1 + m.gap) ++ ("type".toList ++ ':' :: (blanks m.typeGap ++ m.type))).set
        c '-' = m.lead c ++ m.type := by
      rw [set_blanks]
      simp [StepForm.lead, Line.typeWord]
    rw [List.map_cons, StepForm.item, itemLines, ih, Layout.lines, StepForm.fields, fieldLines_cons,
      List.flatMap_cons, dashed]
    simp only [Keyed.head, Keyed.tail, Keyed.below, hlead, List.nil_append]
    rfl

theorem fieldLines_steps (q : SequenceForm) :
    fieldLines 0 q.fields = q.above q.steps ++ fieldLines 0 q.after := by
  have hbelow : q.stepsField.below 0 = itemLines q.gap (q.steps.map (·.item)) := by
    simp [SequenceForm.stepsField, Keyed.below, Layout.lines]
  have hhead : q.stepsField.head 0 = "steps:".toList := rfl
  rw [SequenceForm.fields, fieldLines_append, fieldLines_cons, hbelow, hhead, itemLines_steps,
    SequenceForm.above]
  simp

theorem SequenceForm.above_append (q : SequenceForm) (ms ns : List StepForm) :
    q.above (ms ++ ns) = q.above ms ++ ns.flatMap (·.lines q.gap) := by
  rw [above, above, List.flatMap_append, List.append_assoc, List.cons_append]

/-- The lines of a sequence before and after one of its steps. -/
theorem fieldLines_form {q : SequenceForm} {ms₁ ms₂ : List StepForm} {m : StepForm}
    (h : q.steps = ms₁ ++ m :: ms₂) :
    fieldLines 0 q.fields =
      q.above ms₁ ++ (m.lines q.gap ++ (ms₂.flatMap (·.lines q.gap) ++ fieldLines 0 q.after)) := by
  rw [fieldLines_steps, h, q.above_append, List.flatMap_cons, List.append_assoc, List.append_assoc]

end Yaml.Layout

/-! ## Lines of steps -/

namespace Line

open Text

theorem trimLeft_blanks (n : Nat) {cs : List Char} (h : cs.head?.any isBlank = false) :
    trimLeft (blanks n ++ cs) = cs := by
  rw [trimLeft_eq_drop, blankLead_blanks n h, List.drop_left' (length_blanks n)]

theorem isStepStart_lead (c : Nat) {m : StepForm} (hgap : 0 < m.gap) (t : List Char) :
    isStepStart (m.lead c ++ t) = true := by
  obtain ⟨n, hn⟩ := Nat.exists_eq_succ_of_ne_zero (Nat.ne_of_gt hgap)
  have hinner : trimLeft (blanks m.gap ++ (typeWord ++ (blanks m.typeGap ++ t))) =
      typeWord ++ (blanks m.typeGap ++ t) := trimLeft_blanks m.gap rfl
  have hblank : (blanks m.gap ++ (typeWord ++ (blanks m.typeGap ++ t))).head?.any isBlank = true := by
    rw [hn]
    rfl
  rw [isStepStart, m.lead_append, trimLeft_blanks c rfl]
  simp only [hblank, hinner, strip?_eq_some_iff.mpr rfl, Option.isSome_some, Bool.and_self]

/-- A line with a key is none that starts a step. -/
theorem isStepStart_head {f : Keyed Layout} (h : isKey f.key = true) (c : Nat) :
    isStepStart (f.head c) = false := by
  obtain ⟨ch, m, hhead, hindicator, hblank⟩ := exists_cons_of_head h
  rw [head_zero] at hhead
  have hdash : ch ≠ '-' := ne_of_isIndicator hindicator (by decide)
  have htrim : trimLeft (blanks c ++ ch :: m) = ch :: m := trimLeft_blanks c hblank
  rw [isStepStart, Keyed.head, hhead, htrim]
  split
  · next heq => exact absurd (List.cons.inj heq).1 hdash
  · rfl

theorem dashBlanks?_lead (c : Nat) {m : StepForm} (hgap : 0 < m.gap) (t : List Char) :
    dashBlanks? (m.lead c ++ t) = some (c, m.gap) := by
  obtain ⟨n, hn⟩ := Nat.exists_eq_succ_of_ne_zero (Nat.ne_of_gt hgap)
  have hblank : (blanks m.gap ++ (typeWord ++ (blanks m.typeGap ++ t))).head?.any isBlank = true := by
    rw [hn]
    rfl
  rw [dashBlanks?, m.lead_append, trimLeft_blanks c rfl]
  simp only [hblank, if_true, blankLead_blanks m.gap (t := typeWord ++ _) rfl,
    blankLead_blanks c (t := '-' :: _) rfl]

/-! ### Keys of steps -/

theorem blankLead_head {f : Keyed Layout} (h : isKey f.key = true) (c : Nat) :
    blankLead (f.head c) = c := by
  obtain ⟨ch, m, hhead, -, hblank⟩ := exists_cons_of_head h
  rw [head_zero] at hhead
  rw [Keyed.head, hhead, blankLead_blanks c (t := ch :: m) hblank]

/-- A key is found in a step if it is a word. -/
theorem stepKey?_head {f : Keyed Layout} (h : isKey f.key = true) {c : Nat} (hc : 2 ≤ c) :
    (f.head c).stepKey? =
      if f.key.all isWord then some ⟨c, c + f.key.length, c + f.key.length⟩ else none := by
  have hcolon : isWord ':' = false := by decide +kernel
  have hdrop : (f.head c).drop c = f.key ++ ':' :: f.tail := List.drop_left' (length_blanks c)
  have hne : f.key ≠ [] := by
    obtain ⟨ch, r, hk, -⟩ := exists_cons_of_key h
    rw [hk]
    exact List.cons_ne_nil _ _
  unfold stepKey?
  simp only [blankLead_head h, ← List.drop_drop, hdrop, takeWhile_key hcolon, drop_takeWhile_key,
    decide_eq_true hc, Bool.true_and]
  by_cases hall : f.key.all isWord = true
  · have hrun : f.key.takeWhile isWord = f.key :=
      List.takeWhile_eq_self_iff.mpr (List.all_eq_true.mp hall)
    have hrest : f.key.dropWhile isWord = [] :=
      List.dropWhile_eq_nil_iff.mpr (List.all_eq_true.mp hall)
    have hempty : f.key.isEmpty = false := by simpa using hne
    simp [hrun, hrest, hempty, hall]
  · -- The run ends at a character of the key, which is no colon.
    have hrest : f.key.dropWhile isWord ≠ [] := fun hnil =>
      hall (List.all_eq_true.mpr (List.dropWhile_eq_nil_iff.mp hnil))
    obtain ⟨ch, r, hch⟩ := List.exists_cons_of_ne_nil hrest
    have hcolon' := (solid_of_isKey h ch ((List.dropWhile_sublist isWord).subset (by
      rw [hch]; exact List.mem_cons_self))).2
    have hhead : (some ch == some ':') = false := by simpa using hcolon'
    simp only [hch, List.cons_append, List.head?_cons, hhead, Bool.and_false, Bool.false_eq_true,
      if_false, hall]

theorem stepKey?_head_zero {f : Keyed Layout} (h : isKey f.key = true) :
    (f.head 0).stepKey? = none := by
  rw [stepKey?]
  simp only [blankLead_head h]
  rfl

theorem stepKey?_lead (c : Nat) (m : StepForm) (t : List Char) : stepKey? (m.lead c ++ t) = none := by
  have hlead : blankLead (m.lead c ++ t) = c := by
    rw [m.lead_append, blankLead_blanks c rfl]
  have hdrop : (m.lead c ++ t).drop c =
      '-' :: (blanks m.gap ++ (typeWord ++ (blanks m.typeGap ++ t))) := by
    rw [m.lead_append, List.drop_left' (length_blanks c)]
  have hdash : isWord '-' = false := by decide +kernel
  unfold stepKey?
  simp only [hlead, hdrop, List.takeWhile_cons_of_neg (p := isWord) (a := '-') (by simp [hdash]),
    List.isEmpty_nil, Bool.not_true, Bool.and_false, Bool.false_and, Bool.false_eq_true, if_false]

/-! ### The type of a step -/

theorem typeAfterBlank?_blanks (offset n : Nat) (blankBefore : Bool) (cs : List Char) :
    typeAfterBlank? offset blankBefore (blanks (n + 1) ++ cs) =
      typeAfterBlank? (offset + n + 1) true cs := by
  have hspace : ∀ k b rest, typeAfterBlank? k b (' ' :: rest) = typeAfterBlank? (k + 1) true rest := by
    intro k b rest
    rw [typeAfterBlank?, show strip? typeWord (' ' :: rest) = none from rfl]
    simp [show isBlank ' ' = true from rfl]
  induction n generalizing offset blankBefore with
  | zero => exact hspace offset blankBefore cs
  | succ n ih =>
    rw [show blanks (n + 1 + 1) ++ cs = ' ' :: (blanks (n + 1) ++ cs) from rfl, hspace, ih]
    congr 1
    omega

/-- The type of a step stands after the dash and its blanks. -/
theorem typeAfterBlank?_lead (c : Nat) {m : StepForm} (hgap : 0 < m.gap) (t : List Char) :
    typeAfterBlank? 0 false (m.lead c ++ t) = some (m.column c) := by
  obtain ⟨n, hn⟩ := Nat.exists_eq_succ_of_ne_zero (Nat.ne_of_gt hgap)
  have hdash : ∀ k b rest, typeAfterBlank? k b ('-' :: rest) = typeAfterBlank? (k + 1) false rest := by
    intro k b rest
    rw [typeAfterBlank?, show strip? typeWord ('-' :: rest) = none from rfl]
    simp [show isBlank '-' = false from rfl]
  have htype : ∀ k rest, typeAfterBlank? k true (typeWord ++ rest) = some k := fun _ _ => rfl
  have hafter : ∀ b, typeAfterBlank? c b ('-' :: (blanks m.gap ++
      (typeWord ++ (blanks m.typeGap ++ t)))) = some (m.column c) := by
    intro b
    rw [hdash, hn, typeAfterBlank?_blanks, htype, StepForm.column, hn]
    congr 1
  rw [m.lead_append]
  cases c with
  | zero => exact hafter false
  | succ c =>
    rw [typeAfterBlank?_blanks, Nat.zero_add]
    exact hafter true

theorem stepTypeStart?_lead (c : Nat) {m : StepForm} (hgap : 0 < m.gap) {t : List Char}
    (ht : isText t = true) :
    stepTypeStart? (m.lead c ++ t) = some (m.lead c).length ∧
      (m.lead c ++ t).trimmedStop (m.lead c).length = (m.lead c).length + t.length := by
  have hdrop : (m.lead c ++ t).drop (m.column c + 4 + 1) = blanks m.typeGap ++ t := by
    have hsplit : m.lead c ++ t =
        (blanks c ++ '-' :: (blanks m.gap ++ typeWord)) ++ (blanks m.typeGap ++ t) := by
      simp [StepForm.lead]
    rw [hsplit, List.drop_left']
    simp only [List.length_append, List.length_cons, length_blanks, StepForm.column]
    have htype : typeWord.length = 5 := rfl
    omega
  obtain ⟨hstart, hstop⟩ := value_of_isText ht hdrop
  rw [stepTypeStart?, typeAfterBlank?_lead c hgap, Option.map_some, m.length_lead]
  exact ⟨congrArg some hstart, hstop⟩

end Line

/-! ## The group of a step -/

namespace Step

/-- A line that starts a step has a group with those after it, up to the next such line.  Its index
is the number of such lines before it. -/
theorem getElem?_groups (xs zs : List (Line × Nat)) {ys : List (Line × Nat)} {p : Line × Nat}
    (hp : p.1.isStepStart = true) (hys : ∀ q ∈ ys, q.1.isStepStart = false)
    (hzs : ∀ q ∈ zs.head?, q.1.isStepStart = true) :
    (groups (xs ++ p :: (ys ++ zs)))[xs.countP (·.1.isStepStart)]? = some (p :: ys) := by
  induction xs with
  | nil =>
    have hrun : (ys ++ zs).takeWhile (fun q => !q.1.isStepStart) = ys := by
      rw [List.takeWhile_append_of_pos fun q hq => by simp [hys q hq]]
      cases zs with
      | nil => simp
      | cons q zs =>
        rw [List.takeWhile_cons_of_neg (by simp [hzs q rfl]), List.append_nil]
    obtain ⟨l, n⟩ := p
    rw [List.nil_append, groups, if_pos hp]
    exact congrArg (fun g => some ((l, n) :: g)) hrun
  | cons x xs ih =>
    obtain ⟨l, n⟩ := x
    rw [List.cons_append, groups]
    by_cases hx : l.isStepStart = true
    · rw [if_pos hx, List.countP_cons_of_pos (a := (l, n)) hx, List.getElem?_cons_succ, ih]
    · rw [if_neg hx, List.countP_cons_of_neg (a := (l, n)) hx, ih]

theorem countP_zipIdx (p : Line → Bool) (xs : List Line) (n : Nat) :
    (xs.zipIdx n).countP (fun q => p q.1) = xs.countP p := by
  induction xs generalizing n with
  | nil => rfl
  | cons x xs ih => rw [List.zipIdx_cons, List.countP_cons, ih, List.countP_cons]

theorem getElem?_ofBlock_eq {ls g : List (Line × Nat)} {members : List (Option Value)} {i : Nat}
    {member : Option Value} (hg : (groups ls)[i]? = some g) (hmember : members[i]? = some member) :
    (ofBlock ls members)[i]? = some (ofLines i g member) := by
  have hzip : ((groups ls).zip members)[i]? = some (g, member) :=
    List.getElem?_zip_eq_some.mpr ⟨hg, hmember⟩
  rw [ofBlock, List.getElem?_map, List.getElem?_zipIdx, hzip]
  simp

end Step

namespace Yaml.Layout

variable {limits : Limits} {q : SequenceForm} {ms₁ ms₂ : List StepForm} {m m' : StepForm}

theorem countP_quiet {ls : List Line} (h : Quiet ls) : ls.countP (·.isStepStart) = 0 :=
  List.countP_eq_zero.mpr fun l hl => by simp [h l hl]

theorem countP_steps {ms : List StepForm} {c : Nat} (hgap : ∀ m ∈ ms, 0 < m.gap)
    (hrest : ∀ m ∈ ms, Quiet (fieldLines (m.column c) m.rest)) :
    (ms.flatMap (·.lines c)).countP (·.isStepStart) = ms.length := by
  induction ms with
  | nil => rfl
  | cons m ms ih =>
    have hstart := Line.isStepStart_lead c (hgap m List.mem_cons_self) m.type
    rw [List.flatMap_cons, List.countP_append, StepForm.lines, List.countP_cons_of_pos hstart,
      countP_quiet (hrest m List.mem_cons_self),
      ih (fun e he => hgap e (List.mem_cons_of_mem m he))
        fun e he => hrest e (List.mem_cons_of_mem m he), List.length_cons]
    omega

theorem SequenceForm.Aligned.countP_above (h : q.Aligned) (hsteps : q.steps = ms₁ ++ m :: ms₂)
    (hgap : ∀ m ∈ q.steps, 0 < m.gap) : (q.above ms₁).countP (·.isStepStart) = ms₁.length := by
  have hbefore : ∀ e ∈ ms₁, e ∈ q.steps := fun e he => by
    rw [hsteps]
    exact List.mem_append_left _ he
  rw [SequenceForm.above, List.countP_append, countP_quiet h.before,
    List.countP_cons_of_neg (by decide), countP_steps (fun e he => hgap e (hbefore e he))
      fun e he => h.rest e (hbefore e he), Nat.zero_add]

/-- The lines of a step are a group with the index of the step; the last step has the lines after
it too. -/
theorem SequenceForm.Aligned.getElem?_groups_form (h : q.Aligned) (hsteps : q.steps = ms₁ ++ m :: ms₂)
    (hgap : ∀ m ∈ q.steps, 0 < m.gap) (n : Nat) :
    (Step.groups ((fieldLines 0 q.fields).zipIdx n))[ms₁.length]? =
      some ((m.lines q.gap ++ q.belowLast ms₂).zipIdx (n + (q.above ms₁).length)) := by
  have hm := SequenceForm.mem_steps hsteps
  have hstart := Line.isStepStart_lead q.gap (hgap m hm) m.type
  have hindex : ((q.above ms₁).zipIdx n).countP (fun p => p.1.isStepStart) = ms₁.length := by
    rw [Step.countP_zipIdx, h.countP_above hsteps hgap]
  rw [← hindex, fieldLines_form hsteps, List.zipIdx_append, StepForm.lines]
  cases ms₂ with
  | nil =>
    have hquiet : ∀ p ∈ (fieldLines (m.column q.gap) m.rest ++ fieldLines 0 q.after).zipIdx
        (n + (q.above ms₁).length + 1), p.1.isStepStart = false := by
      intro p hp
      rcases List.mem_append.mp (List.fst_mem_of_mem_zipIdx hp) with hl | hl
      · exact h.rest m hm p.1 hl
      · exact h.after p.1 hl
    have hgroup := Step.getElem?_groups ((q.above ms₁).zipIdx n) []
      (p := (m.lead q.gap ++ m.type, n + (q.above ms₁).length)) hstart hquiet (by simp)
    rw [List.append_nil] at hgroup
    exact hgroup
  | cons e ms₂ =>
    have he : e ∈ q.steps := by
      rw [hsteps]
      simp
    have hquiet : ∀ p ∈ (fieldLines (m.column q.gap) m.rest).zipIdx (n + (q.above ms₁).length + 1),
        p.1.isStepStart = false := by
      intro p hp
      exact h.rest m hm p.1 (List.fst_mem_of_mem_zipIdx hp)
    have hgroup := Step.getElem?_groups ((q.above ms₁).zipIdx n)
      ((((e :: ms₂).flatMap (·.lines q.gap)) ++ fieldLines 0 q.after).zipIdx
        (n + (q.above ms₁).length + 1 + (fieldLines (m.column q.gap) m.rest).length))
      (p := (m.lead q.gap ++ m.type, n + (q.above ms₁).length)) hstart hquiet (by
        rw [List.flatMap_cons, StepForm.lines]
        rintro p ⟨⟩
        exact Line.isStepStart_lead q.gap (hgap e he) e.type)
    rw [← List.zipIdx_append] at hgroup
    simpa [SequenceForm.belowLast] using hgroup

/-! ## Steps of a block -/

theorem Readable.stepsField (h : Readable limits q.fields) : q.stepsField.WellFormed :=
  h.field _ (List.mem_append_right _ List.mem_cons_self)

theorem Readable.step (h : Readable limits q.fields) (hm : m ∈ q.steps) :
    0 < m.gap ∧ (Layout.fields m.fields).wellFormed = true := by
  obtain ⟨-, -, hitems⟩ := h.stepsField
  obtain ⟨hspaced, hwell⟩ := (wellFormed_items_iff.mp hitems).2 m.item (List.mem_map_of_mem hm)
  rcases hspaced with hgap | hnothing
  · exact ⟨hgap, hwell⟩
  · cases hnothing

theorem Readable.stepField (h : Readable limits q.fields) (hm : m ∈ q.steps) :
    ∀ f ∈ m.fields, f.WellFormed :=
  (wellFormed_fields_iff.mp (h.step hm).2).2.2

theorem Readable.stepNodup (h : Readable limits q.fields) (hm : m ∈ q.steps) :
    (m.fields.map (·.key)).Nodup :=
  (wellFormed_fields_iff.mp (h.step hm).2).2.1

theorem Readable.depth_step (h : Readable limits q.fields) (hm : m ∈ q.steps) :
    (Layout.fields m.fields).depth + 1 < limits.nesting := by
  obtain ⟨-, -, hall⟩ := readable_iff.mp h
  have hfield := (hall q.stepsField (List.mem_append_right _ List.mem_cons_self)).2
  change (Layout.items _).depth < _ at hfield
  rw [depth] at hfield
  have hitem := (itemsDepth_lt_iff (Nat.succ_pos _)).mp (Nat.lt_succ_self _) m.item
    (List.mem_map_of_mem hm)
  exact Nat.lt_of_lt_of_le (Nat.succ_lt_succ hitem) hfield

theorem Readable.depth_fields (h : Readable limits q.fields) (hm : m ∈ q.steps)
    {gs : List (Keyed Layout)} (hsub : gs ⊆ m.fields) : (Layout.fields gs).depth < limits.nesting := by
  have hle : fieldsDepth gs ≤ fieldsDepth m.fields := fieldsDepth_le fun f hf => Or.inr (hsub hf)
  have hstep := h.depth_step hm
  rw [depth] at hstep ⊢
  omega

/-- A form may have other steps, if these are well-formed and each is not deeper than one of its
own. -/
theorem Readable.withSteps (h : Readable limits q.fields) {ms : List StepForm} (hne : ms ≠ [])
    (hms : ∀ e ∈ ms, 0 < e.gap ∧ (Layout.fields e.fields).wellFormed = true ∧
      ∃ m ∈ q.steps, fieldsDepth e.fields ≤ fieldsDepth m.fields) :
    Readable limits { q with steps := ms }.fields := by
  obtain ⟨hspaced, hkey, -⟩ := h.stepsField
  refine h.replace (f := q.stepsField) ⟨?_, hkey, wellFormed_items_iff.mpr ⟨?_, ?_⟩⟩ ?_ rfl
  · rcases hspaced with hgap | hnothing
    · exact Or.inl hgap
    · cases hnothing
  · exact fun hnil => hne (List.map_eq_nil_iff.mp hnil)
  · rintro x hx
    obtain ⟨e, he, rfl⟩ := List.mem_map.mp hx
    obtain ⟨hgap, hwell, -⟩ := hms e he
    exact ⟨Or.inl hgap, hwell⟩
  · show (Layout.items _).depth < _
    have hlimit : 1 < limits.nesting := by
      obtain ⟨e, he⟩ := List.exists_mem_of_ne_nil ms hne
      obtain ⟨-, -, m, hm, -⟩ := hms e he
      have hstep := h.depth_step hm
      rw [depth] at hstep
      omega
    rw [depth, ← Nat.lt_sub_iff_add_lt, itemsDepth_lt_iff (Nat.sub_pos_of_lt hlimit)]
    rintro x hx
    obtain ⟨e, he, rfl⟩ := List.mem_map.mp hx
    obtain ⟨-, -, m, hm, hdepth⟩ := hms e he
    have hstep := h.depth_step hm
    simp only [StepForm.item, depth] at hstep ⊢
    omega

/-- The form with another step after the given ones. -/
def SequenceForm.withStep (q : SequenceForm) (ms₁ : List StepForm) (m : StepForm)
    (ms₂ : List StepForm) : SequenceForm := { q with steps := ms₁ ++ m :: ms₂ }

theorem mem_withStep (hsteps : q.steps = ms₁ ++ m :: ms₂) {e : StepForm}
    (he : e ∈ (q.withStep ms₁ m' ms₂).steps) : e = m' ∨ e ∈ q.steps := by
  rw [hsteps]
  rcases List.mem_append.mp he with he | he
  · exact Or.inr (List.mem_append_left _ he)
  · exact (List.mem_cons.mp he).imp_right fun he =>
      List.mem_append_right _ (List.mem_cons_of_mem m he)

theorem Readable.withStep (h : Readable limits q.fields) (hsteps : q.steps = ms₁ ++ m :: ms₂)
    (hgap : 0 < m'.gap) (hwell : (Layout.fields m'.fields).wellFormed = true)
    (hdepth : fieldsDepth m'.fields ≤ fieldsDepth m.fields) :
    Readable limits (q.withStep ms₁ m' ms₂).fields := by
  refine h.withSteps (by simp) fun e he => ?_
  rcases mem_withStep hsteps he with rfl | he
  · exact ⟨hgap, hwell, m, SequenceForm.mem_steps hsteps, hdepth⟩
  · obtain ⟨hgap, hwell⟩ := h.step he
    exact ⟨hgap, hwell, e, he, Nat.le_refl _⟩

/-- A step may have other fields, if these are well-formed and not deeper than its own. -/
theorem Readable.withFields (h : Readable limits q.fields) (hsteps : q.steps = ms₁ ++ m :: ms₂)
    (hgap : m'.gap = m.gap) (hnodup : (m'.fields.map (·.key)).Nodup)
    (hfields : ∀ f ∈ m'.fields, f.WellFormed ∧ (f.isFlat = true ∨ f ∈ m.fields)) :
    Readable limits (q.withStep ms₁ m' ms₂).fields := by
  have hm := SequenceForm.mem_steps hsteps
  refine h.withStep hsteps (by rw [hgap]; exact (h.step hm).1) ?_
    (fieldsDepth_le fun f hf => (hfields f hf).2)
  exact wellFormed_fields_iff.mpr ⟨List.cons_ne_nil _ _, hnodup, fun f hf => (hfields f hf).1⟩

/-- A step may lose fields. -/
theorem Readable.withRest (h : Readable limits q.fields) (hsteps : q.steps = ms₁ ++ m :: ms₂)
    {fs : List (Keyed Layout)} (hsub : fs.Sublist m.rest) :
    Readable limits (q.withStep ms₁ { m with rest := fs } ms₂).fields := by
  have hm := SequenceForm.mem_steps hsteps
  refine h.withFields hsteps rfl ((h.stepNodup hm).sublist ((hsub.cons_cons _).map _)) fun e he => ?_
  have he' : e ∈ m.fields := (hsub.cons_cons _).subset he
  exact ⟨h.stepField hm e he', Or.inr he'⟩

/-- Fields of one line each have no line that starts a step. -/
theorem quiet_of_isFlat {fs : List (Keyed Layout)} (hfs : ∀ f ∈ fs, f.WellFormed)
    (hflat : ∀ f ∈ fs, f.isFlat = true) (c : Nat) : Quiet (fieldLines c fs) := by
  intro l hl
  rw [fieldLines_of_isFlat hflat] at hl
  obtain ⟨f, hf, rfl⟩ := List.mem_map.mp hl
  exact Line.isStepStart_head (hfs f hf).2.1 c

/-- A form is aligned if each of its fields is one line. -/
theorem Readable.aligned (h : Readable limits q.fields) (hbefore : ∀ f ∈ q.before, f.isFlat = true)
    (hrest : ∀ m ∈ q.steps, ∀ f ∈ m.rest, f.isFlat = true)
    (hafter : ∀ f ∈ q.after, f.isFlat = true) : q.Aligned where
  before := quiet_of_isFlat (fun f hf => h.field f (List.mem_append_left _ hf)) hbefore 0
  rest m hm := quiet_of_isFlat (fun f hf => h.stepField hm f (List.mem_cons_of_mem _ hf)) (hrest m hm) _
  after := quiet_of_isFlat (fun f hf => h.field f (by simp [SequenceForm.fields, hf])) hafter 0

end Yaml.Layout

/-- The steps of a sequence are the members of its value. -/
theorem Yaml.Value.Holds.exists_members {v : Value} {q : SequenceForm}
    (h : v.Holds (.fields q.fields)) (hread : Readable limits q.fields) :
    ∃ members, (v.get? "steps").bind (·.items?) = some members ∧
      List.Forall₂ (fun m o => ∃ w : Value, o = some w ∧ w.Holds (.fields m.fields))
        q.steps members := by
  have hget := h.get?_eq "steps".toList
  have hfind : q.fields.find? (·.key == "steps".toList) = some q.stepsField := find?_key hread.nodup
  rw [hfind, String.ofList_toList] at hget
  generalize v.get? "steps" = o at hget
  cases hget with
  | some hw =>
    obtain ⟨members, hmembers, hall⟩ := hw.items?_eq
    exact ⟨members, hmembers, List.forall₂_map_left_iff.mp hall⟩

namespace Block.Lays

variable {limits : Limits} {seq : String} {b : Block} {first : Nat} {v : Value} {q : SequenceForm}
  {ms₁ ms₂ : List StepForm} {m : StepForm}

/-- The value of a step is that of the member with its index. -/
theorem exists_stepValue? (h : Lays seq b first q.fields v) (hread : Readable limits q.fields)
    (hsteps : q.steps = ms₁ ++ m :: ms₂) :
    ∃ w members, (v.get? "steps").bind (·.items?) = some members ∧
      members[ms₁.length]? = some (some w) ∧ w.Holds (.fields m.fields) ∧
      b.stepValue? ms₁.length = some w := by
  obtain ⟨members, hmembers, hall⟩ := h.holds.exists_members hread
  rw [hsteps] at hall
  obtain ⟨hlength, hmember⟩ := List.forall₂_iff_get.mp hall
  have hlt : ms₁.length < (ms₁ ++ m :: ms₂).length := by
    rw [List.length_append, List.length_cons]
    omega
  have hstep : (ms₁ ++ m :: ms₂).get ⟨ms₁.length, hlt⟩ = m := by simp
  obtain ⟨w, ho, hw⟩ := hmember ms₁.length hlt (hlength ▸ hlt)
  rw [hstep] at hw
  have hget : members[ms₁.length]? = some (some w) := by
    rw [List.getElem?_eq_getElem (hlength ▸ hlt)]
    exact congrArg some ho
  refine ⟨w, _, hmembers, hget, hw, ?_⟩
  rw [stepValue?, h.value?_eq, Option.bind_some, hmembers, Option.bind_some, hget]
  rfl

/-- A step is made of its own lines and of the member that they stand for. -/
theorem exists_step (h : Lays seq b first q.fields v) (hread : Readable limits q.fields)
    (haligned : q.Aligned) (htype : b.actionType = some seq) (hsteps : q.steps = ms₁ ++ m :: ms₂) :
    ∃ w, w.Holds (.fields m.fields) ∧ b.stepValue? ms₁.length = some w ∧
      b.steps[ms₁.length]? = some (Step.ofLines ms₁.length
        ((m.lines q.gap ++ q.belowLast ms₂).zipIdx (first + 1 + (q.above ms₁).length)) (some w)) := by
  obtain ⟨w, members, hmembers, hget, hw, hvalue⟩ := h.exists_stepValue? hread hsteps
  refine ⟨w, hw, hvalue, ?_⟩
  rw [h.steps_eq htype hmembers]
  exact Step.getElem?_ofBlock_eq
    (haligned.getElem?_groups_form hsteps (fun e he => (hread.step he).1) _) hget

/-- Each step of the block is one of the form. -/
theorem exists_form (h : Lays seq b first q.fields v) (hread : Readable limits q.fields) {i : Nat}
    {t : Step} (ht : b.steps[i]? = some t) :
    b.actionType = some seq ∧ ∃ ms₁ m ms₂, q.steps = ms₁ ++ m :: ms₂ ∧ ms₁.length = i := by
  obtain ⟨members, hmembers, hall⟩ := h.holds.exists_members hread
  obtain ⟨r, rfl, hcontent, -, rfl⟩ := h
  obtain ⟨members', hmembers', hstep⟩ := getElem?_steps_ofOutcome ht
  have htype : (ofOutcome seq r (.mapping v)).actionType = some seq := by
    by_contra hne
    have hnil : (ofOutcome seq r (.mapping v)).steps = [] := by
      unfold ofOutcome
      exact if_neg hne
    rw [hnil] at ht
    cases ht
  refine ⟨htype, ?_⟩
  obtain ⟨g, member, -, hmember, -⟩ := Step.getElem?_ofBlock hstep
  have hsame : members' = members := by
    have hboth : some members' = some members := hmembers'.symm.trans hmembers
    exact Option.some.inj hboth
  rw [hsame] at hmember
  have hlt : i < q.steps.length := by
    rw [hall.length_eq]
    exact (List.getElem?_eq_some_iff.mp hmember).1
  refine ⟨q.steps.take i, q.steps[i], q.steps.drop (i + 1), ?_, ?_⟩
  · rw [List.getElem_cons_drop hlt, List.take_append_drop]
  · exact List.length_take_of_le (Nat.le_of_lt hlt)

end Block.Lays
end TalkDeck
