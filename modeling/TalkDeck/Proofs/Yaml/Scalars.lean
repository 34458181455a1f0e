import TalkDeck.Proofs.Yaml.Outcome
import TalkDeck.Yaml.Scalar

/-
Which scalars stop the reading of a document.  A text tagged as a truth value, a number or a
timestamp stops it when it has not even the look of one (`Scalar.stops`); a text that decides on its
tag by its look has it, so it hardly ever does (`Scalar.stops_tagOf`).
-/

namespace TalkDeck
namespace Yaml

/-- The tags whose readers can stop the document. -/
def strictTags : List String := [Tag.bool, Tag.int, Tag.float, Tag.timestamp]

namespace Scalar

/-- The most places a number in sixties can have after the first without one beyond every number. -/
def maxPlaces : Nat := 173

/-- Whether a text read as a value of a tag stops the document. -/
def stops (tag : String) (text : List Char) : Bool :=
  if tag = Tag.bool then (truth? (Text.lower text)).isNone
  else if tag = Tag.int then (unsigned (text.filter (· != '_'))).isEmpty
  else if tag = Tag.float then
    (floatForm text).isEmpty || decide (maxPlaces < (floatForm text).count ':')
  else if tag = Tag.timestamp then (timestamp? (dropFinalBreak text)).isNone
  else false

/-- Whether a text that decides on its tag itself stops the document: a truth word with a line feed
after it, or a number in sixties with too many places. -/
def plainStops (text : List Char) : Bool :=
  (text.getLast? == some '\n' && isTruth (dropFinalBreak text)) ||
    (isFloat (dropFinalBreak text) && decide (maxPlaces < (floatForm text).count ':'))

theorem stops_of_not_mem {tag : String} (h : tag ∉ strictTags) (text : List Char) :
    stops tag text = false := by
  simp only [strictTags, List.mem_cons, List.not_mem_nil, or_false, not_or] at h
  obtain ⟨hbool, hint, hfloat, htimestamp⟩ := h
  unfold stops
  rw [if_neg hbool, if_neg hint, if_neg hfloat, if_neg htimestamp]

theorem mem_of_stops {tag : String} {text : List Char} (h : stops tag text = true) :
    tag ∈ strictTags := by
  refine Classical.byContradiction fun htag => ?_
  rw [stops_of_not_mem htag] at h
  cases h

theorem isSome_truth?_of_isTruth {cs : List Char} (h : isTruth cs = true) :
    (truth? (Text.lower cs)).isSome = true := by
  have hall : ∀ w ∈ truthWords, (truth? (Text.lower w.toList)).isSome = true := by decide +kernel
  obtain ⟨w, hw, hcs⟩ := List.any_eq_true.1 h
  rw [← eq_of_beq hcs]
  exact hall w hw

theorem mem_of_mem_dropFinalBreak {c : Char} {cs : List Char} (h : c ∈ dropFinalBreak cs) :
    c ∈ cs := by
  unfold dropFinalBreak at h
  split at h
  · exact (List.dropLast_sublist cs).subset h
  · exact h

theorem mem_of_mem_unsigned {c : Char} {cs : List Char} (h : c ∈ unsigned cs) : c ∈ cs := by
  unfold unsigned at h
  split at h
  · exact List.mem_cons_of_mem _ h
  · exact List.mem_cons_of_mem _ h
  · exact h

/-- An integer has a digit. -/
theorem exists_isDigit_of_isInt {cs : List Char} (h : isInt cs = true) :
    ∃ c ∈ cs, c.isDigit = true := by
  suffices ∃ c ∈ unsigned cs, c.isDigit = true by
    obtain ⟨c, hc, hdigit⟩ := this
    exact ⟨c, mem_of_mem_unsigned hc, hdigit⟩
  unfold isInt at h
  split at h
  · next heq => exact ⟨'0', by rw [heq]; exact List.mem_cons_self, by decide⟩
  · next heq => exact ⟨'0', by rw [heq]; exact List.mem_cons_self, by decide⟩
  · next heq => exact ⟨'0', by rw [heq]; exact List.mem_cons_self, by decide⟩
  · next heq => exact ⟨'0', by rw [heq]; exact List.mem_cons_self, by decide⟩
  · cases hcs : unsigned cs with
    | nil => rw [hcs] at h; exact absurd h (by decide)
    | cons c r =>
      refine ⟨c, List.mem_cons_self, ?_⟩
      rw [hcs] at h
      cases hdigit : c.isDigit with
      | true => rfl
      | false => simp [numberLead?, hdigit] at h

theorem unsigned_filter_ne_nil {cs : List Char} (h : ∃ c ∈ cs, c.isDigit = true) :
    unsigned (cs.filter (· != '_')) ≠ [] := by
  obtain ⟨c, hc, hdigit⟩ := h
  have hmem : c ∈ cs.filter (· != '_') := by
    refine List.mem_filter.2 ⟨hc, ?_⟩
    rw [bne_iff_ne]
    rintro rfl
    exact absurd hdigit (by decide)
  generalize cs.filter (· != '_') = ds at hmem
  intro hnil
  unfold unsigned at hnil
  split at hnil
  · subst hnil
    rw [List.mem_singleton.1 hmem] at hdigit
    exact absurd hdigit (by decide)
  · subst hnil
    rw [List.mem_singleton.1 hmem] at hdigit
    exact absurd hdigit (by decide)
  · rw [hnil] at hmem
    exact absurd hmem List.not_mem_nil

theorem lowerAfter_ne_nil {before cs : List Char} (h : cs ≠ []) : Text.lowerAfter before cs ≠ [] := by
  cases cs with
  | nil => exact absurd rfl h
  | cons c cs =>
    unfold Text.lowerAfter
    simp only
    split
    · exact nofun
    · split
      · exact nofun
      · exact nofun

/-- A decimal number has a character besides the underscore. -/
theorem exists_ne_of_isFloat {cs : List Char} (h : isFloat cs = true) : ∃ c ∈ cs, c ≠ '_' := by
  cases cs with
  | nil => exact absurd h (by decide)
  | cons c r =>
    refine ⟨c, List.mem_cons_self, ?_⟩
    rintro rfl
    simp [isFloat, unsigned, numberLead?] at h

theorem floatForm_ne_nil {cs : List Char} (h : ∃ c ∈ cs, c ≠ '_') : floatForm cs ≠ [] := by
  obtain ⟨c, hc, hne⟩ := h
  refine lowerAfter_ne_nil ?_
  exact List.ne_nil_of_mem (List.mem_filter.2 ⟨hc, by rwa [bne_iff_ne]⟩)

/-- A truth value is read as one, unless it keeps a line break at its end. -/
theorem stops_bool {text : List Char} (h : isTruth (dropFinalBreak text) = true)
    (hlast : text.getLast? ≠ some '\n') : stops Tag.bool text = false := by
  have hword := isSome_truth?_of_isTruth h
  rw [dropFinalBreak, if_neg hlast] at hword
  rw [stops, if_pos rfl, Option.isNone_eq_false_iff]
  exact hword

/-- A decimal number keeps a character when its underscores go. -/
theorem stops_float {text : List Char} (h : isFloat (dropFinalBreak text) = true)
    (hplaces : decide (maxPlaces < (floatForm text).count ':') = false) :
    stops Tag.float text = false := by
  obtain ⟨c, hc, hne⟩ := exists_ne_of_isFloat h
  have hform := floatForm_ne_nil ⟨c, mem_of_mem_dropFinalBreak hc, hne⟩
  rw [stops, if_neg (by decide), if_neg (by decide), if_pos rfl, hplaces, Bool.or_false]
  exact List.isEmpty_eq_false_iff.2 hform

/-- An integer keeps a digit when its sign and its underscores go. -/
theorem stops_int {text : List Char} (h : isInt (dropFinalBreak text) = true) :
    stops Tag.int text = false := by
  obtain ⟨c, hc, hdigit⟩ := exists_isDigit_of_isInt h
  rw [stops, if_neg (by decide), if_pos rfl]
  exact List.isEmpty_eq_false_iff.2
    (unsigned_filter_ne_nil ⟨c, mem_of_mem_dropFinalBreak hc, hdigit⟩)

/-- A timestamp has the look of one. -/
theorem stops_timestamp {text : List Char} (h : isTimestamp (dropFinalBreak text) = true) :
    stops Tag.timestamp text = false := by
  rw [stops, if_neg (by decide), if_neg (by decide), if_neg (by decide), if_pos rfl]
  unfold isTimestamp at h
  split at h
  · next t ht => rw [ht]; rfl
  · exact absurd h (by decide)

/-- A text that decides on its own tag is read as a value of that tag, or has a fault of its own:
what makes it look like one also makes it one. -/
theorem stops_tagOf {text : List Char} (h : plainStops text = false) :
    stops (tagOf text) text = false := by
  obtain ⟨htruth, hplaces⟩ := Bool.or_eq_false_iff.mp h
  unfold tagOf
  simp only
  split
  · exact stops_of_not_mem (by decide) _
  split
  · next hbool =>
    rw [hbool, Bool.and_true, beq_eq_false_iff_ne] at htruth
    exact stops_bool hbool htruth
  split
  · next hfloat =>
    rw [hfloat, Bool.true_and] at hplaces
    exact stops_float hfloat hplaces
  split
  · next hint => exact stops_int hint
  split
  · exact stops_of_not_mem (by decide) _
  split
  · exact stops_of_not_mem (by decide) _
  split
  · next htimestamp => exact stops_timestamp htimestamp
  split
  · exact stops_of_not_mem (by decide) _
  split
  · exact stops_of_not_mem (by decide) _
  · exact stops_of_not_mem (by decide) _

/-! ## Readers -/

variable {t text : List Char} {R : Prop}

theorem gives_readDigits (base : Nat) (cs : List Char) :
    Gives (From t R) (fun _ => True) (readDigits base cs) := by
  unfold readDigits
  split
  · exact .of_ok trivial
  · exact .of_error trivial
  · exact .of_error trivial

theorem gives_readDecimal (cs : List Char) : Gives (From t R) (fun _ => True) (readDecimal cs) := by
  unfold readDecimal
  split
  · exact .of_ok trivial
  · exact .of_error trivial

theorem gives_readBool (h : stops Tag.bool text = true → R) :
    Gives (From t R) (fun _ => True) (readBool text) := by
  rw [stops, if_pos rfl] at h
  unfold readBool
  simp only
  split
  · exact .of_ok trivial
  · next hnone => exact .of_error (h (by rw [hnone]; rfl))

theorem gives_readInt (h : stops Tag.int text = true → R) :
    Gives (From t R) (fun _ => True) (readInt text) := by
  rw [stops, if_neg (by decide), if_pos rfl] at h
  unfold readInt
  simp only
  split
  · next hnil => exact .of_error (h (by rw [hnil]; rfl))
  · split
    · exact .of_pure trivial
    · exact .bind (gives_readDigits _ _) fun _ _ => .of_pure trivial
    · exact .bind (gives_readDigits _ _) fun _ _ => .of_pure trivial
    · exact .bind (gives_readDigits _ _) fun _ _ => .of_pure trivial
    · next hnil => exact .of_error (h (by rw [hnil]; rfl))
    · refine .ite (fun _ => ?_) fun _ => ?_
      · exact .bind (Gives.length_mapM fun d _ => gives_readDigits _ d) fun _ _ => .of_pure trivial
      · exact .bind (gives_readDigits _ _) fun _ _ => .of_pure trivial

theorem count_unsigned_le (c : Char) (cs : List Char) : (unsigned cs).count c ≤ cs.count c := by
  refine List.Sublist.count_le c ?_
  unfold unsigned
  split
  · exact List.sublist_cons_self ..
  · exact List.sublist_cons_self ..
  · exact List.Sublist.refl _

theorem ofNat_pow_sixty_ne {k : Nat} (h : k ≤ maxPlaces) (s : Bool) :
    Binary64.ofNat (Nat.pow 60 k) ≠ .infinite s := by
  have hall : ∀ k < maxPlaces + 1, ∀ s : Bool, Binary64.ofNat (Nat.pow 60 k) ≠ .infinite s := by
    decide +kernel
  exact hall k (by omega) s

theorem gives_sumSixties {ds : List Binary64} {k : Nat} (h : maxPlaces + 1 < k + ds.length → R)
    (sum : Binary64) : Gives (From t R) (fun _ => True) (sumSixties (Nat.pow 60 k) sum ds) := by
  induction ds generalizing k sum with
  | nil => exact .of_ok trivial
  | cons d ds ih =>
    rw [List.length_cons] at h
    unfold sumSixties
    split
    · next s hs =>
      exact .of_error (h (Nat.lt_of_not_le fun hle => ofNat_pow_sixty_ne (by omega) s hs))
    · rw [Nat.mul_comm]
      exact ih (k := k + 1) (fun hlt => h (by omega)) _

theorem gives_readFloat (h : stops Tag.float text = true → R) :
    Gives (From t R) (fun _ => True) (readFloat text) := by
  rw [stops, if_neg (by decide), if_neg (by decide), if_pos rfl, Bool.or_eq_true,
    decide_eq_true_eq] at h
  have hbody := count_unsigned_le ':' (floatForm text)
  unfold readFloat
  simp only
  split
  · next hnil => exact .of_error (h (Or.inl (by rw [hnil]; rfl)))
  · refine .ite (fun _ => .of_pure trivial) fun _ => ?_
    refine .ite (fun _ => .of_pure trivial) fun _ => ?_
    refine .ite (fun _ => ?_) fun _ => ?_
    · refine .bind (Gives.length_mapM fun d _ => gives_readDecimal d) fun parts hparts => ?_
      rw [Text.length_splitAt] at hparts
      refine .bind (gives_sumSixties (k := 0) (fun hlt => h (Or.inr ?_)) _) fun _ _ => .of_pure trivial
      rw [List.length_reverse] at hlt
      omega
    · exact .bind (gives_readDecimal _) fun _ _ => .of_pure trivial

theorem gives_checkDate (y m d : Nat) : Gives (From t R) (fun _ => True) (checkDate y m d) := by
  unfold checkDate
  refine .ite (fun _ => .of_error trivial) fun _ => ?_
  refine .ite (fun _ => .of_error trivial) fun _ => ?_
  exact .ite (fun _ => .of_error trivial) fun _ => .of_ok trivial

theorem gives_checkZone (sign : Char) (hours minutes : List Char) :
    Gives (From t R) (fun _ => True) (checkZone sign hours minutes) := by
  unfold checkZone
  exact .ite (fun _ => .of_error trivial) fun _ => .of_ok trivial

/-- A date with a time of day is checked part by part, whatever is made of it. -/
theorem gives_clock {y m d hour minute second : Nat} (value : Date → Scalar) :
    Gives (From t R) (fun _ => True) (do
      let date ← checkDate y m d
      if 23 < hour then Except.error (.unmarked .hour)
      else if 59 < minute then .error (.unmarked .minute)
      else if 59 < second then .error (.unmarked .second)
      else pure (value date)) := by
  refine .bind (gives_checkDate _ _ _) fun date _ => ?_
  refine .ite (fun _ => .of_error trivial) fun _ => ?_
  refine .ite (fun _ => .of_error trivial) fun _ => ?_
  exact .ite (fun _ => .of_error trivial) fun _ => .of_pure trivial

theorem gives_readTimestamp (h : stops Tag.timestamp text = true → R) :
    Gives (From t R) (fun _ => True) (readTimestamp text) := by
  rw [stops, if_neg (by decide), if_neg (by decide), if_neg (by decide), if_pos rfl] at h
  unfold readTimestamp
  split
  · next hnone => exact .of_error (h (by rw [hnone]; rfl))
  · next t ht =>
    simp only
    split
    · exact .bind (gives_checkDate _ _ _) fun _ _ => .of_pure trivial
    · split
      · exact gives_clock _
      · exact gives_clock _
      · exact .bind (gives_checkZone _ _ _) fun _ _ => gives_clock _

end Scalar
end Yaml
end TalkDeck
