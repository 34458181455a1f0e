import Mathlib.Order.Bounds.Defs
import TalkDeck.EditDistance

/-
The table of edit distances.

`Changes n x y` says that `n` insertions, deletions and substitutions of single characters turn `x`
into `y`.  The recursion `least` on the first characters of two texts is the least such `n`
(`changes_least`, `least_le_of_changes`), and each row of the table lists it for a prefix of the one
text and all prefixes of the other, read backwards.  The rows share one array: halfway through a pass
it holds the start of the row below and the end of the row above (`overwrite_row`), and after the pass
the row below (`nextRow_row`).  So the last entry of the last row is the least number of changes, and
so are the answers for equal and for empty texts (`distance_eq`).  The theorem this file exists for is
`isLeast_distance`.
-/

namespace TalkDeck
namespace EditDistance

/-! ## Changes -/

/-- A change of a single character. -/
inductive Change : List Char → List Char → Prop
  | insert (u v : List Char) (c : Char) : Change (u ++ v) (u ++ c :: v)
  | delete (u v : List Char) (c : Char) : Change (u ++ c :: v) (u ++ v)
  | substitute (u v : List Char) (c c' : Char) : Change (u ++ c :: v) (u ++ c' :: v)

/-- A number of changes, one after the other. -/
inductive Changes : Nat → List Char → List Char → Prop
  | refl (x : List Char) : Changes 0 x x
  | step {n : Nat} {x y z : List Char} (first : Change x y) (rest : Changes n y z) :
      Changes (n + 1) x z

theorem Change.cons {x y : List Char} (h : Change x y) (c : Char) : Change (c :: x) (c :: y) := by
  cases h with
  | insert u v a => exact Change.insert (c :: u) v a
  | delete u v a => exact Change.delete (c :: u) v a
  | substitute u v a b => exact Change.substitute (c :: u) v a b

theorem Change.symm {x y : List Char} (h : Change x y) : Change y x := by
  cases h with
  | insert u v a => exact Change.delete u v a
  | delete u v a => exact Change.insert u v a
  | substitute u v a b => exact Change.substitute u v b a

theorem Change.reverse {x y : List Char} (h : Change x y) : Change x.reverse y.reverse := by
  have hsplit : ∀ (u v : List Char) (c : Char), (u ++ c :: v).reverse = v.reverse ++ c :: u.reverse := by
    intro u v c
    rw [List.reverse_append, List.reverse_cons, List.append_assoc]
    rfl
  cases h with
  | insert u v a =>
    rw [List.reverse_append, hsplit]
    exact Change.insert _ _ a
  | delete u v a =>
    rw [hsplit, List.reverse_append]
    exact Change.delete _ _ a
  | substitute u v a b =>
    rw [hsplit, hsplit]
    exact Change.substitute _ _ a b

namespace Changes

variable {n m : Nat} {x y z : List Char}

theorem cons (h : Changes n x y) (c : Char) : Changes n (c :: x) (c :: y) := by
  induction h with
  | refl x => exact refl _
  | step first _ ih => exact step (first.cons c) ih

theorem reverse (h : Changes n x y) : Changes n x.reverse y.reverse := by
  induction h with
  | refl x => exact refl _
  | step first _ ih => exact step first.reverse ih

theorem snoc (h : Changes n x y) (last : Change y z) : Changes (n + 1) x z := by
  induction h with
  | refl x => exact step last (refl _)
  | step first _ ih => exact step first (ih last)

theorem symm (h : Changes n x y) : Changes n y x := by
  induction h with
  | refl x => exact refl x
  | step first _ ih => exact ih.snoc first.symm

theorem trans (h : Changes n x y) (h' : Changes m y z) : Changes (n + m) x z := by
  induction h with
  | refl x =>
    rw [Nat.zero_add]
    exact h'
  | step first _ ih =>
    rw [Nat.add_right_comm]
    exact step first (ih h')

theorem eq_of_zero (h : Changes 0 x y) : x = y := by
  cases h with
  | refl x => rfl

theorem insert_all (y : List Char) : Changes y.length [] y := by
  induction y with
  | nil => exact refl []
  | cons c y ih => exact ih.snoc (Change.insert [] y c)

theorem delete_all (x : List Char) : Changes x.length x [] := by
  induction x with
  | nil => exact refl []
  | cons c x ih => exact step (Change.delete [] x c) ih

end Changes

/-! ## The least number of changes -/

/-- The least number of changes, by the first characters. -/
def least : List Char → List Char → Nat
  | [], y => y.length
  | x, [] => x.length
  | a :: x, b :: y =>
    min (min (least x (b :: y) + 1) (least (a :: x) y + 1)) (least x y + if a = b then 0 else 1)

theorem nil_least (y : List Char) : least [] y = y.length := by
  rw [least]

theorem least_nil (x : List Char) : least x [] = x.length := by
  cases x with
  | nil => exact nil_least []
  | cons a x =>
    rw [least]
    exact List.cons_ne_nil a x

theorem least_cons_cons (a b : Char) (x y : List Char) : least (a :: x) (b :: y) =
    min (min (least x (b :: y) + 1) (least (a :: x) y + 1))
      (least x y + if a = b then 0 else 1) := by
  rw [least]

theorem least_self (x : List Char) : least x x = 0 := by
  induction x with
  | nil => exact nil_least []
  | cons c x ih =>
    rw [least_cons_cons, ih, if_pos rfl]
    omega

theorem least_cons_left_le (a : Char) (x y : List Char) : least (a :: x) y ≤ least x y + 1 := by
  cases y with
  | nil =>
    rw [least_nil, least_nil]
    exact Nat.le_refl _
  | cons b y =>
    rw [least_cons_cons]
    omega

theorem least_cons_right_le (b : Char) (x y : List Char) : least x (b :: y) ≤ least x y + 1 := by
  cases x with
  | nil =>
    rw [nil_least, nil_least]
    exact Nat.le_refl _
  | cons a x =>
    rw [least_cons_cons]
    omega

theorem least_le_cons_left (a : Char) (x y : List Char) : least x y ≤ least (a :: x) y + 1 := by
  induction y with
  | nil =>
    rw [least_nil, least_nil, List.length_cons]
    omega
  | cons b y ih =>
    have hright := least_cons_right_le b x y
    rw [least_cons_cons]
    omega

/-- A first character in common keeps two texts as close. -/
theorem least_cons_le_of_le {x x' : List Char} (h : ∀ y, least x y ≤ least x' y + 1) (c : Char)
    (y : List Char) : least (c :: x) y ≤ least (c :: x') y + 1 := by
  induction y with
  | nil =>
    have hnil := h []
    rw [least_nil, least_nil] at hnil ⊢
    rw [List.length_cons, List.length_cons]
    omega
  | cons b y ih =>
    have hwhole := h (b :: y)
    have hrest := h y
    rw [least_cons_cons, least_cons_cons]
    omega

theorem least_substitute_le (a b : Char) (x y : List Char) :
    least (a :: x) y ≤ least (b :: x) y + 1 := by
  induction y with
  | nil =>
    rw [least_nil, least_nil, List.length_cons, List.length_cons]
    omega
  | cons c y ih =>
    have hcost : (if a = c then 0 else 1) ≤ (if b = c then 0 else 1) + 1 := by
      split <;> omega
    rw [least_cons_cons, least_cons_cons]
    omega

/-- One change brings a text closer to another by one at most. -/
theorem Change.least_le {x x' : List Char} (h : Change x x') (y : List Char) :
    least x y ≤ least x' y + 1 := by
  have hprefix : ∀ {v v' : List Char}, (∀ y, least v y ≤ least v' y + 1) → ∀ u y,
      least (u ++ v) y ≤ least (u ++ v') y + 1 := by
    intro v v' hv u
    induction u with
    | nil => exact hv
    | cons c u ih => exact least_cons_le_of_le ih c
  cases h with
  | insert u v c => exact hprefix (least_le_cons_left c v) u y
  | delete u v c => exact hprefix (least_cons_left_le c v) u y
  | substitute u v c c' => exact hprefix (least_substitute_le c c' v) u y

theorem least_le_of_changes {n : Nat} {x y : List Char} (h : Changes n x y) : least x y ≤ n := by
  induction h with
  | refl x => exact Nat.le_of_eq (least_self x)
  | step first _ ih => exact Nat.le_trans (first.least_le _) (Nat.succ_le_succ ih)

theorem changes_least (x y : List Char) : Changes (least x y) x y := by
  induction x, y using least.induct with
  | case1 y =>
    rw [nil_least]
    exact Changes.insert_all y
  | case2 x _ =>
    rw [least_nil]
    exact Changes.delete_all x
  | case3 a x b y hdelete hinsert hkeep =>
    have hcases : least (a :: x) (b :: y) = least x (b :: y) + 1 ∨
        least (a :: x) (b :: y) = least (a :: x) y + 1 ∨
        least (a :: x) (b :: y) = least x y + if a = b then 0 else 1 := by
      rw [least_cons_cons]
      omega
    rcases hcases with h | h | h
    · rw [h]
      exact Changes.step (Change.delete [] x a) hdelete
    · rw [h]
      exact hinsert.snoc (Change.insert [] y b)
    · rw [h]
      by_cases hab : a = b
      · rw [if_pos hab, hab]
        exact hkeep.cons b
      · rw [if_neg hab]
        exact Changes.step (Change.substitute [] x a b) (hkeep.cons b)

/-! ## Rows of the table -/

/-- The distances of a text from another, and from it with one after the other of more characters
before it. -/
def row (x done : List Char) : List Char → List Nat
  | [] => [least x done]
  | b :: bs => least x done :: row x (b :: done) bs

theorem cons_tail_row (x done bs : List Char) :
    row x done bs = least x done :: (row x done bs).tail := by
  cases bs <;> rfl

/-- The first row is that of the empty text. -/
theorem range'_eq_row (done bs : List Char) :
    List.range' done.length (bs.length + 1) = row [] done bs := by
  induction bs generalizing done with
  | nil =>
    rw [row, nil_least]
    rfl
  | cons b bs ih =>
    rw [List.length_cons, List.range'_succ, row, nil_least, ← ih (b :: done)]
    rfl

/-- Halfway through a pass the row is that of the longer text up to some entry and that of the shorter
one behind it.  Of what is overwritten only the last entry is needed again, and it comes along. -/
theorem overwrite_row (a : Char) (x done bs : List Char) (front : List Nat) :
    overwrite a bs (front.length + 1) (least x done)
        (front ++ least (a :: x) done :: (row x done bs).tail).toArray =
      (front ++ row (a :: x) done bs).toArray := by
  induction bs generalizing done front with
  | nil => rfl
  | cons b bs ih =>
    have hrow : (row x done (b :: bs)).tail = least x (b :: done) :: (row x (b :: done) bs).tail :=
      cons_tail_row x (b :: done) bs
    have hleft : ∀ rest : List Nat, (front ++ least (a :: x) done :: rest).toArray.getD
        front.length 0 = least (a :: x) done := by
      intro rest
      simp
    have habove : ∀ n rest, (front ++ least (a :: x) done :: n :: rest).toArray.getD
        (front.length + 1) 0 = n := by
      intro n rest
      simp
    have hset : ∀ m n rest, (front ++ least (a :: x) done :: m :: rest).toArray.setIfInBounds
        (front.length + 1) n = (front ++ least (a :: x) done :: n :: rest).toArray := by
      intro m n rest
      simp
    have hrest := ih (b :: done) (front ++ [least (a :: x) done])
    rw [List.length_append, List.length_singleton, List.append_assoc, List.append_assoc] at hrest
    rw [hrow, overwrite, habove, Nat.add_sub_cancel, hleft, ← least_cons_cons, hset]
    exact hrest

/-- The row below that of a text is the row of the text with one more character. -/
theorem nextRow_row (bs x : List Char) (a : Char) :
    nextRow bs (row x [] bs).toArray a (x.length + 1) = (row (a :: x) [] bs).toArray := by
  have hdiagonal : (least x [] :: (row x [] bs).tail).toArray.getD 0 0 = least x [] := rfl
  have hfirst : (least x [] :: (row x [] bs).tail).toArray.setIfInBounds 0 (x.length + 1) =
      (least (a :: x) [] :: (row x [] bs).tail).toArray := by
    rw [least_nil (a :: x)]
    rfl
  rw [cons_tail_row x [] bs, nextRow, hdiagonal, hfirst]
  exact overwrite_row a x [] bs []

theorem foldl_nextRow (as bs x : List Char) :
    (as.zipIdx (x.length + 1)).foldl (fun r (a, i) => nextRow bs r a i) (row x [] bs).toArray =
      (row (as.reverse ++ x) [] bs).toArray := by
  induction as generalizing x with
  | nil => rfl
  | cons a as ih =>
    rw [List.zipIdx_cons, List.foldl_cons, List.reverse_cons, List.append_assoc]
    show List.foldl _ (nextRow bs (row x [] bs).toArray a (x.length + 1)) _ = _
    rw [nextRow_row]
    exact ih (a :: x)

theorem getLast?_row (x done bs : List Char) :
    (row x done bs).getLast? = some (least x (bs.reverse ++ done)) := by
  induction bs generalizing done with
  | nil => rfl
  | cons b bs ih =>
    rw [row, List.getLast?_cons, ih, List.reverse_cons, List.append_assoc]
    rfl

theorem back?_lastRow (x y : List Char) : (lastRow x y).back? = some (least x.reverse y.reverse) := by
  have hstart : List.range (y.length + 1) = row [] [] y := by
    rw [List.range_eq_range']
    exact range'_eq_row [] y
  have hlast := foldl_nextRow x y []
  rw [List.append_nil] at hlast
  rw [lastRow, hstart]
  refine (congrArg Array.back? hlast).trans ?_
  rw [List.back?_toArray, getLast?_row, List.append_nil]

theorem distance_eq (x y : List Char) : distance x y = least x.reverse y.reverse := by
  unfold distance
  split
  · next heq =>
    rw [heq, least_self]
  · split
    · next hx =>
      rw [hx, List.reverse_nil, nil_least, List.length_reverse]
    · split
      · next hy =>
        rw [hy, List.reverse_nil, least_nil, List.length_reverse]
      · rw [back?_lastRow]
        rfl

/-- As many changes as the distance turn the one text into the other. -/
theorem changes_distance (x y : List Char) : Changes (distance x y) x y := by
  have hleast := (changes_least x.reverse y.reverse).reverse
  rwa [List.reverse_reverse, List.reverse_reverse, ← distance_eq] at hleast

/-- No smaller number of changes does. -/
theorem distance_le_of_changes {n : Nat} {x y : List Char} (h : Changes n x y) :
    distance x y ≤ n := by
  rw [distance_eq]
  exact least_le_of_changes h.reverse

/-- **The distance is the least number of changes.**  It is therefore a metric. -/
theorem isLeast_distance (x y : List Char) :
    IsLeast {n | Changes n x y} (distance x y) ∧ distance x y = distance y x ∧
      (distance x y = 0 ↔ x = y) ∧ ∀ z, distance x z ≤ distance x y + distance y z := by
  have hxy := changes_distance x y
  refine ⟨⟨hxy, fun n hn => distance_le_of_changes hn⟩, ?_, ⟨fun hzero => ?_, fun heq => ?_⟩,
    fun z => ?_⟩
  · exact Nat.le_antisymm (distance_le_of_changes (changes_distance y x).symm)
      (distance_le_of_changes hxy.symm)
  · rw [hzero] at hxy
    exact hxy.eq_of_zero
  · rw [heq]
    exact Nat.le_zero.mp (distance_le_of_changes (Changes.refl y))
  · exact distance_le_of_changes (hxy.trans (changes_distance y z))

example : distance "file.opn".toList "file.open".toList = 1 := by decide +kernel

/-- Whether no more changes than a limit turn the one text into the other. -/
def Near (limit : Int) (x y : List Char) : Prop := ∃ n : Nat, Changes n x y ∧ (n : Int) ≤ limit

theorem near_iff {limit : Int} {x y : List Char} : Near limit x y ↔ (distance x y : Int) ≤ limit := by
  constructor
  · rintro ⟨n, hchanges, hn⟩
    have hle := distance_le_of_changes hchanges
    omega
  · intro h
    exact ⟨_, changes_distance x y, h⟩

instance (limit : Int) (x y : List Char) : Decidable (Near limit x y) :=
  decidable_of_iff _ near_iff.symm

end EditDistance
end TalkDeck
