import Mathlib.Algebra.GroupWithZero.Nat
import Mathlib.Data.List.Nodup
import TalkDeck.Debounce

/-
Which of the scheduled tasks run.

The table of timers and the calls of the loop are two things, and a call takes its key out of the
table without a look at the number that stands there.  `InStep` says that the table lists the calls
that wait; every action keeps it (`InStep.perform`), so a call never takes out the entry of a later
one.  What an action does to the calls is then said once (`mem_called`, `InStep.mem_waiting`),
and the lot of one call follows by induction over the actions after it (`InStep.mem_run`).

The theorem this file exists for is `run_calls_last`: a task runs if its time comes in some wait before
anything ends it, and the table holds what has neither run nor been ended.
-/

namespace TalkDeck

variable {α : Type}

/-! ## The loop -/

namespace Loop

/-- A call that falls due last goes to the end. -/
theorem enqueue_of_le {t : Timer α} {us : List (Timer α)} (h : ∀ u ∈ us, u.due ≤ t.due) :
    enqueue t us = us ++ [t] := by
  induction us with
  | nil => rfl
  | cons u us ih =>
    rw [enqueue, if_pos (h u List.mem_cons_self), ih fun v hv => h v (List.mem_cons_of_mem u hv),
      List.cons_append]

theorem now_foldl_cancel (es : List (String × Nat)) (l : Loop α) :
    (es.foldl (fun l e => l.cancel e.2) l).now = l.now := by
  induction es generalizing l with
  | nil => rfl
  | cons e es ih => exact ih (l.cancel e.2)

theorem made_foldl_cancel (es : List (String × Nat)) (l : Loop α) :
    (es.foldl (fun l e => l.cancel e.2) l).made = l.made := by
  induction es generalizing l with
  | nil => rfl
  | cons e es ih => exact ih (l.cancel e.2)

theorem mem_foldl_cancel {es : List (String × Nat)} {l : Loop α} {t : Timer α} :
    t ∈ (es.foldl (fun l e => l.cancel e.2) l).waiting ↔
      t ∈ l.waiting ∧ ∀ e ∈ es, t.id ≠ e.2 := by
  induction es generalizing l with
  | nil => simp
  | cons e es ih =>
    rw [List.foldl_cons, ih, cancel, List.mem_filter, bne_iff_ne, List.forall_mem_cons, and_assoc]

end Loop

namespace Debounce

variable {d : Debounce α} {t u : Timer α} {key : String} {a : Action α}

/-! ## Table and loop -/

/-- The table lists the calls that wait, of which no two stand for one key; they are numbered in
their order, and none falls due later than a call made now. -/
structure InStep (d : Debounce α) : Prop where
  table : d.timers = d.loop.waiting.map fun t => (t.key, t.id)
  keys : (d.loop.waiting.map (·.key)).Nodup
  numbers : d.loop.waiting.Pairwise fun t u => t.id < u.id
  made : ∀ t ∈ d.loop.waiting, t.id < d.loop.made
  reach : ∀ t ∈ d.loop.waiting, t.due ≤ d.loop.now + d.delay * tick

theorem inStep_empty (delay : Int) : InStep ({ delay } : Debounce α) where
  table := rfl
  keys := List.nodup_nil
  numbers := List.Pairwise.nil
  made := fun _ ht => absurd ht List.not_mem_nil
  reach := fun _ ht => absurd ht List.not_mem_nil

theorem InStep.eq_of_key (h : d.InStep) (ht : t ∈ d.loop.waiting) (hu : u ∈ d.loop.waiting)
    (heq : t.key = u.key) : t = u :=
  List.inj_on_of_nodup_map h.keys ht hu heq

theorem InStep.eq_of_id (h : d.InStep) (ht : t ∈ d.loop.waiting) (hu : u ∈ d.loop.waiting)
    (heq : t.id = u.id) : t = u := by
  have hids : (d.loop.waiting.map (·.id)).Nodup :=
    List.pairwise_map.mpr (h.numbers.imp fun hlt => Nat.ne_of_lt hlt)
  exact List.inj_on_of_nodup_map hids ht hu heq

/-- Calls may leave both, and time may pass. -/
theorem InStep.of_sublist {e : Debounce α} (h : d.InStep)
    (hsub : e.loop.waiting.Sublist d.loop.waiting)
    (htable : e.timers = e.loop.waiting.map fun t => (t.key, t.id)) (hdelay : e.delay = d.delay)
    (hmade : e.loop.made = d.loop.made) (hnow : d.loop.now ≤ e.loop.now) : e.InStep where
  table := htable
  keys := h.keys.sublist (hsub.map _)
  numbers := h.numbers.sublist hsub
  made := by
    intro t ht
    rw [hmade]
    exact h.made t (hsub.subset ht)
  reach := by
    intro t ht
    have hle := h.reach t (hsub.subset ht)
    rw [hdelay]
    omega

/-- A key has a call exactly if it is in the table. -/
theorem InStep.lookup_eq_some (h : d.InStep) {id : Nat} (hid : d.timers.lookup key = some id) :
    ∃ t ∈ d.loop.waiting, t.key = key ∧ t.id = id := by
  obtain ⟨before, after, hsplit, -⟩ := List.lookup_eq_some_iff.mp hid
  have hmem : (key, id) ∈ d.timers := by
    rw [hsplit]
    exact List.mem_append_right before List.mem_cons_self
  rw [h.table] at hmem
  obtain ⟨t, ht, heq⟩ := List.mem_map.mp hmem
  obtain ⟨hkey, hid⟩ := Prod.mk.inj heq
  exact ⟨t, ht, hkey, hid⟩

theorem InStep.waiting_cancel (h : d.InStep) (key : String) :
    (d.cancel key).loop.waiting = d.loop.waiting.filter (·.key != key) := by
  unfold cancel
  split
  · next id hid =>
    obtain ⟨t, ht, rfl, rfl⟩ := h.lookup_eq_some hid
    -- The number in the table belongs to the only call of the key.
    refine List.filter_congr fun u hu => ?_
    rw [Bool.eq_iff_iff, bne_iff_ne, bne_iff_ne, not_iff_not]
    constructor
    · intro heq
      rw [h.eq_of_id hu ht heq]
    · intro heq
      rw [h.eq_of_key hu ht heq]
  · next hnone =>
    symm
    rw [List.filter_eq_self]
    intro t ht
    rw [bne_iff_ne]
    rintro rfl
    refine lookup_eq_none_iff.mp hnone (isPending_iff.mpr ⟨(t.key, t.id), ?_, rfl⟩)
    rw [h.table]
    exact List.mem_map_of_mem ht

theorem timers_cancel (d : Debounce α) (key : String) :
    (d.cancel key).timers = d.timers.filter (·.1 != key) := by
  unfold cancel
  split
  · rfl
  · next hnone =>
    symm
    rw [List.filter_eq_self]
    intro e he
    rw [bne_iff_ne]
    rintro rfl
    exact lookup_eq_none_iff.mp hnone (isPending_iff.mpr ⟨e, he, rfl⟩)

theorem delay_cancel (d : Debounce α) (key : String) : (d.cancel key).delay = d.delay := by
  unfold cancel
  split <;> rfl

theorem now_cancel (d : Debounce α) (key : String) : (d.cancel key).loop.now = d.loop.now := by
  unfold cancel
  split <;> rfl

theorem made_cancel (d : Debounce α) (key : String) : (d.cancel key).loop.made = d.loop.made := by
  unfold cancel
  split <;> rfl

theorem InStep.cancel (h : d.InStep) (key : String) : (d.cancel key).InStep := by
  refine h.of_sublist ?_ ?_ (delay_cancel d key) (made_cancel d key) ?_
  · rw [h.waiting_cancel]
    exact List.filter_sublist
  · rw [h.waiting_cancel, timers_cancel, h.table, List.filter_map]
    rfl
  · exact Int.le_of_eq (now_cancel d key).symm

theorem InStep.waiting_cancelAll (h : d.InStep) : d.cancelAll.loop.waiting = [] := by
  rw [List.eq_nil_iff_forall_not_mem]
  intro t ht
  obtain ⟨ht, hnone⟩ := Loop.mem_foldl_cancel.mp ht
  refine hnone (t.key, t.id) ?_ rfl
  rw [h.table]
  exact List.mem_map_of_mem ht

theorem InStep.cancelAll (h : d.InStep) : d.cancelAll.InStep := by
  refine h.of_sublist ?_ ?_ rfl (Loop.made_foldl_cancel _ _) ?_
  · rw [h.waiting_cancelAll]
    exact List.nil_sublist _
  · rw [h.waiting_cancelAll]
    rfl
  · exact Int.le_of_eq (Loop.now_foldl_cancel _ _).symm

/-- The call made by scheduling a task now. -/
def newCall (d : Debounce α) (key : String) (task : α) : Timer α :=
  ⟨d.loop.made, key, d.loop.now + d.delay * tick, task⟩

theorem InStep.waiting_schedule (h : d.InStep) (key : String) (task : α) :
    (d.schedule key task).loop.waiting =
      d.loop.waiting.filter (·.key != key) ++ [d.newCall key task] := by
  have hreach : ∀ u ∈ (d.cancel key).loop.waiting,
      u.due ≤ ((d.cancel key).newCall key task).due := (h.cancel key).reach
  have hnew : (d.cancel key).newCall key task = d.newCall key task := by
    rw [newCall, newCall, delay_cancel, now_cancel, made_cancel]
  rw [← h.waiting_cancel, ← hnew]
  exact Loop.enqueue_of_le hreach

theorem InStep.schedule (h : d.InStep) (key : String) (task : α) :
    (d.schedule key task).InStep := by
  have hcancel := h.cancel key
  have hwaiting := h.waiting_schedule key task
  have hmade : (d.schedule key task).loop.made = d.loop.made + 1 := by
    show (d.cancel key).loop.made + 1 = _
    rw [made_cancel]
  have hnow : (d.schedule key task).loop.now = d.loop.now := now_cancel d key
  have hdelay : (d.schedule key task).delay = d.delay := delay_cancel d key
  have hold : ∀ t ∈ d.loop.waiting.filter (·.key != key), t ∈ d.loop.waiting ∧ t.key ≠ key := by
    intro t ht
    rw [List.mem_filter, bne_iff_ne] at ht
    exact ht
  constructor
  · show (d.cancel key).timers ++ [(key, (d.cancel key).loop.made)] = _
    rw [hcancel.table, h.waiting_cancel, hwaiting, List.map_append, made_cancel]
    rfl
  · rw [hwaiting, List.map_append, List.nodup_append]
    refine ⟨h.keys.sublist (List.filter_sublist.map _), List.nodup_singleton _, ?_⟩
    intro k hk k' hk'
    obtain ⟨t, ht, rfl⟩ := List.mem_map.mp hk
    rw [List.mem_singleton.mp hk']
    exact (hold t ht).2
  · rw [hwaiting, List.pairwise_append]
    refine ⟨h.numbers.sublist List.filter_sublist, List.pairwise_singleton _ _, ?_⟩
    intro t ht u hu
    rw [List.mem_singleton.mp hu]
    exact h.made t (hold t ht).1
  · intro t ht
    rw [hwaiting, List.mem_append, List.mem_singleton] at ht
    rw [hmade]
    rcases ht with ht | rfl
    · exact Nat.lt_succ_of_lt (h.made t (hold t ht).1)
    · exact Nat.lt_succ_self _
  · intro t ht
    rw [hwaiting, List.mem_append, List.mem_singleton] at ht
    rw [hnow, hdelay]
    rcases ht with ht | rfl
    · exact h.reach t (hold t ht).1
    · exact Int.le_refl _

theorem drop_eq_filter (timers : List (String × Nat)) (called : List (Timer α)) :
    drop timers called = timers.filter fun e => called.all (·.key != e.1) := by
  unfold drop
  induction called generalizing timers with
  | nil => simp
  | cons t called ih =>
    rw [List.foldl_cons, ih, List.filter_filter]
    refine List.filter_congr fun e _ => ?_
    rw [List.all_cons, Bool.and_comm]
    congr 1
    rw [Bool.eq_iff_iff, bne_iff_ne, bne_iff_ne]
    exact ne_comm

/-- The keys of the calls made are those of the entries that leave the table. -/
theorem InStep.advance (h : d.InStep) (n : Nat) : (d.advance n).2.InStep := by
  refine h.of_sublist List.filter_sublist ?_ rfl rfl ?_
  · show drop d.timers _ = _
    rw [drop_eq_filter, h.table, List.filter_map]
    refine congrArg _ (List.filter_congr fun t ht => ?_)
    rw [Bool.eq_iff_iff, Function.comp_apply, List.all_eq_true]
    constructor
    · intro hall
      cases hdue : Loop.isDue { d.loop with now := d.loop.now + n } t with
      | false => rfl
      | true => simpa using hall t (List.mem_filter.mpr ⟨ht, hdue⟩)
    · intro hdue u hu
      obtain ⟨hu, hudue⟩ := List.mem_filter.mp hu
      rw [bne_iff_ne]
      intro heq
      rw [h.eq_of_key hu ht heq] at hudue
      rw [hudue] at hdue
      cases hdue
  · show d.loop.now ≤ d.loop.now + n
    omega

/-- Every action keeps the table and the loop in step. -/
theorem InStep.perform (h : d.InStep) (a : Action α) : (d.perform a).2.InStep := by
  cases a with
  | schedule key task => exact h.schedule key task
  | cancel key => exact h.cancel key
  | cancelAll => exact h.cancelAll
  | dispose => exact h.cancelAll
  | wait n => exact h.advance n

theorem InStep.run (h : d.InStep) (as : List (Action α)) : (d.run as).2.InStep := by
  induction as generalizing d with
  | nil => exact h
  | cons a as ih => exact ih (h.perform a)

/-! ## Actions -/

namespace Action

/-- Whether an action puts an end to what waits for a key. -/
def ends (key : String) : Action α → Bool
  | schedule k _ => k == key
  | cancel k => k == key
  | cancelAll => true
  | dispose => true
  | wait _ => false

/-- The time that an action takes. -/
def span : Action α → Nat
  | wait n => n
  | _ => 0

def isSchedule : Action α → Bool
  | schedule _ _ => true
  | _ => false

/-- Whether an action has to do with a key: it schedules or cancels it, or lets time pass. -/
def concerns (key : String) (a : Action α) : Bool :=
  a.ends key ||
    match a with
    | wait _ => true
    | _ => false

end Action

/-- The time that some actions take. -/
def elapsed (as : List (Action α)) : Nat := (as.map (·.span)).sum

/-- How many of some actions schedule a task. -/
def scheduled (as : List (Action α)) : Nat := as.countP (·.isSchedule)

theorem elapsed_cons (a : Action α) (as : List (Action α)) :
    elapsed (a :: as) = a.span + elapsed as := List.sum_cons

theorem delay_perform (d : Debounce α) (a : Action α) : (d.perform a).2.delay = d.delay := by
  cases a with
  | schedule key task => exact delay_cancel d key
  | cancel key => exact delay_cancel d key
  | cancelAll => rfl
  | dispose => rfl
  | wait n => rfl

theorem now_perform (d : Debounce α) (a : Action α) :
    (d.perform a).2.loop.now = d.loop.now + a.span := by
  cases a with
  | schedule key task => exact (now_cancel d key).trans (Int.add_zero _).symm
  | cancel key => exact (now_cancel d key).trans (Int.add_zero _).symm
  | cancelAll => exact (Loop.now_foldl_cancel _ _).trans (Int.add_zero _).symm
  | dispose => exact (Loop.now_foldl_cancel _ _).trans (Int.add_zero _).symm
  | wait n => rfl

theorem made_perform (d : Debounce α) (a : Action α) :
    (d.perform a).2.loop.made = d.loop.made + if a.isSchedule then 1 else 0 := by
  cases a with
  | schedule key task => exact congrArg (· + 1) (made_cancel d key)
  | cancel key => exact made_cancel d key
  | cancelAll => exact Loop.made_foldl_cancel _ _
  | dispose => exact Loop.made_foldl_cancel _ _
  | wait n => rfl

theorem delay_run (d : Debounce α) (as : List (Action α)) : (d.run as).2.delay = d.delay := by
  induction as generalizing d with
  | nil => rfl
  | cons a as ih => exact (ih _).trans (delay_perform d a)

theorem now_run (d : Debounce α) (as : List (Action α)) :
    (d.run as).2.loop.now = d.loop.now + elapsed as := by
  induction as generalizing d with
  | nil => exact (Int.add_zero _).symm
  | cons a as ih =>
    have hstep := now_perform d a
    rw [run, ih, elapsed_cons]
    omega

theorem made_run (d : Debounce α) (as : List (Action α)) :
    (d.run as).2.loop.made = d.loop.made + scheduled as := by
  induction as generalizing d with
  | nil => rfl
  | cons a as ih =>
    rw [run, ih, made_perform, scheduled, scheduled, List.countP_cons]
    omega

theorem run_append (d : Debounce α) (as bs : List (Action α)) :
    d.run (as ++ bs) = ((d.run as).1 ++ ((d.run as).2.run bs).1, ((d.run as).2.run bs).2) := by
  induction as generalizing d with
  | nil => rfl
  | cons a as ih => rw [List.cons_append, run, ih, run, List.append_assoc]

/-! ## What one action does to the calls -/

/-- A call is made in a wait that reaches its time. -/
theorem mem_called :
    t ∈ (d.perform a).1 ↔ ∃ n, a = .wait n ∧ t ∈ d.loop.waiting ∧ t.due ≤ d.loop.now + n := by
  cases a with
  | schedule key task => simp [perform]
  | cancel key => simp [perform]
  | cancelAll => simp [perform]
  | dispose => simp [perform]
  | wait n =>
    show t ∈ d.loop.waiting.filter _ ↔ _
    rw [List.mem_filter, Loop.isDue, decide_eq_true_iff]
    simp

/-- A call waits on unless its time has come or the action ends it, and scheduling makes a new one. -/
theorem InStep.mem_waiting (h : d.InStep) :
    t ∈ (d.perform a).2.loop.waiting ↔
      (t ∈ d.loop.waiting ∧ a.ends t.key = false ∧ t ∉ (d.perform a).1) ∨
        ∃ key task, a = .schedule key task ∧ t = d.newCall key task := by
  cases a with
  | schedule key task =>
    show t ∈ (d.schedule key task).loop.waiting ↔ _
    rw [h.waiting_schedule, List.mem_append, List.mem_filter, List.mem_singleton, bne_iff_ne,
      ne_comm]
    simp [Debounce.perform, Action.ends]
  | cancel key =>
    show t ∈ (d.cancel key).loop.waiting ↔ _
    rw [h.waiting_cancel, List.mem_filter, bne_iff_ne, ne_comm]
    simp [Debounce.perform, Action.ends]
  | cancelAll =>
    show t ∈ d.cancelAll.loop.waiting ↔ _
    rw [h.waiting_cancelAll]
    simp [Action.ends]
  | dispose =>
    show t ∈ d.cancelAll.loop.waiting ↔ _
    rw [h.waiting_cancelAll]
    simp [Action.ends]
  | wait n =>
    show t ∈ d.loop.waiting.filter _ ↔ _
    rw [mem_called, List.mem_filter, Loop.isDue, Bool.not_eq_true', decide_eq_false_iff_not]
    constructor
    · intro ht
      refine Or.inl ⟨ht.1, rfl, ?_⟩
      rintro ⟨m, heq, -, hle⟩
      cases heq
      exact ht.2 hle
    · rintro (⟨hmem, -, hnot⟩ | ⟨key, task, heq, -⟩)
      · exact ⟨hmem, fun hle => hnot ⟨n, rfl, hmem, hle⟩⟩
      · cases heq

/-- Of a call that waits: the action makes it if it waits for as long as is left. -/
theorem mem_called_of_waiting (ht : t ∈ d.loop.waiting) :
    t ∈ (d.perform a).1 ↔ ∃ n, a = .wait n ∧ t.due - d.loop.now ≤ (n : Int) := by
  rw [mem_called]
  constructor
  · rintro ⟨n, rfl, -, hdue⟩
    exact ⟨n, rfl, by omega⟩
  · rintro ⟨n, rfl, hle⟩
    exact ⟨n, rfl, ht, by omega⟩

/-- Of a call that waits: it waits on unless the action ends it or makes it. -/
theorem InStep.waits_on (h : d.InStep) (ht : t ∈ d.loop.waiting) :
    t ∈ (d.perform a).2.loop.waiting ↔ a.ends t.key = false ∧ t ∉ (d.perform a).1 := by
  rw [h.mem_waiting]
  constructor
  · rintro (⟨-, hon⟩ | ⟨key, task, -, rfl⟩)
    · exact hon
    · exact absurd (h.made _ ht) (Nat.lt_irrefl _)
  · intro hon
    exact Or.inl ⟨ht, hon⟩

/-- A number that has been given and does not wait is never called and never waits again. -/
theorem InStep.gone (h : d.InStep) {id : Nat} (hid : id < d.loop.made)
    (hnone : ∀ u ∈ d.loop.waiting, u.id ≠ id) (as : List (Action α)) :
    (∀ u ∈ (d.run as).1, u.id ≠ id) ∧ ∀ u ∈ (d.run as).2.loop.waiting, u.id ≠ id := by
  induction as generalizing d with
  | nil => exact ⟨fun u hu => absurd hu List.not_mem_nil, hnone⟩
  | cons a as ih =>
    have hmade : id < (d.perform a).2.loop.made := by
      rw [made_perform]
      omega
    have hstill : ∀ u ∈ (d.perform a).2.loop.waiting, u.id ≠ id := by
      intro u hu
      rcases h.mem_waiting.mp hu with ⟨hu, -⟩ | ⟨key, task, -, rfl⟩
      · exact hnone u hu
      · exact Nat.ne_of_gt hid
    obtain ⟨hcalled, hwaiting⟩ := ih (h.perform a) hmade hstill
    refine ⟨fun u hu => ?_, hwaiting⟩
    rcases List.mem_append.mp hu with hu | hu
    · obtain ⟨n, -, hu, -⟩ := mem_called.mp hu
      exact hnone u hu
    · exact hcalled u hu

/-- A call that no longer waits is over. -/
theorem InStep.over (h : d.InStep) (ht : t ∈ d.loop.waiting)
    (hout : t ∉ (d.perform a).2.loop.waiting) (as : List (Action α)) :
    (∀ u ∈ ((d.perform a).2.run as).1, u.id ≠ t.id) ∧
      ∀ u ∈ ((d.perform a).2.run as).2.loop.waiting, u.id ≠ t.id := by
  have hid := h.made t ht
  refine (h.perform a).gone ?_ (fun u hu heq => ?_) as
  · rw [made_perform]
    omega
  · rcases h.mem_waiting.mp hu with ⟨hold, -⟩ | ⟨key, task, -, rfl⟩
    · rw [h.eq_of_id hold ht heq] at hu
      exact hout hu
    · change d.loop.made = t.id at heq
      omega

/-! ## The lot of one call -/

/-- The time left for a key runs out in some wait, and no action before that ends what waits for it. -/
def FallsDue (key : String) (left : Int) (as : List (Action α)) : Prop :=
  ∃ before n rest, as = before ++ .wait n :: rest ∧ (∀ a ∈ before, a.ends key = false) ∧
    left ≤ elapsed (before ++ [.wait n])

theorem not_fallsDue_nil (key : String) (left : Int) : ¬FallsDue key left ([] : List (Action α)) := by
  rintro ⟨before, n, rest, heq, -⟩
  cases before <;> cases heq

theorem fallsDue_cons {left : Int} {as : List (Action α)} :
    FallsDue key left (a :: as) ↔ (∃ n, a = .wait n ∧ left ≤ (n : Int)) ∨
      a.ends key = false ∧ FallsDue key (left - a.span) as := by
  constructor
  · rintro ⟨before, n, rest, heq, hbefore, hleft⟩
    cases before with
    | nil =>
      obtain ⟨rfl, -⟩ := List.cons.inj heq
      exact Or.inl ⟨n, rfl, by simpa [elapsed, Action.span] using hleft⟩
    | cons b before =>
      obtain ⟨rfl, rfl⟩ := List.cons.inj heq
      rw [List.cons_append, elapsed_cons] at hleft
      exact Or.inr ⟨hbefore a List.mem_cons_self, before, n, rest, rfl,
        fun b hb => hbefore b (List.mem_cons_of_mem a hb), by omega⟩
  · rintro (⟨n, rfl, hleft⟩ | ⟨hends, before, n, rest, rfl, hbefore, hleft⟩)
    · exact ⟨[], n, as, rfl, fun b hb => absurd hb List.not_mem_nil,
        by simpa [elapsed, Action.span] using hleft⟩
    · refine ⟨a :: before, n, rest, rfl, ?_, ?_⟩
      · intro b hb
        rcases List.mem_cons.mp hb with rfl | hb
        · exact hends
        · exact hbefore b hb
      · rw [List.cons_append, elapsed_cons]
        omega

/-- A call that waits is made if its time comes before anything ends it, and waits on if neither
happens. -/
theorem InStep.mem_run (h : d.InStep) (ht : t ∈ d.loop.waiting) (as : List (Action α)) :
    (t ∈ (d.run as).1 ↔ FallsDue t.key (t.due - d.loop.now) as) ∧
      (t ∈ (d.run as).2.loop.waiting ↔
        (∀ a ∈ as, a.ends t.key = false) ∧ ¬FallsDue t.key (t.due - d.loop.now) as) := by
  induction as generalizing d with
  | nil =>
    have hnot := not_fallsDue_nil (α := α) t.key (t.due - d.loop.now)
    constructor
    · exact ⟨fun hmem => absurd hmem List.not_mem_nil, fun hdue => absurd hdue hnot⟩
    · exact ⟨fun _ => ⟨fun a ha => absurd ha List.not_mem_nil, hnot⟩, fun _ => ht⟩
  | cons a as ih =>
    rw [Debounce.run, List.mem_append, fallsDue_cons, List.forall_mem_cons,
      ← mem_called_of_waiting ht]
    by_cases hon : t ∈ (d.perform a).2.loop.waiting
    · -- The call waits on, with less time left.
      obtain ⟨hends, hcalled⟩ := (h.waits_on ht).mp hon
      have hleft : t.due - (d.perform a).2.loop.now = t.due - d.loop.now - a.span := by
        rw [now_perform]
        omega
      obtain ⟨hrun, hwait⟩ := ih (h.perform a) hon
      rw [hleft] at hrun hwait
      simp only [hcalled, hends, true_and, false_or]
      exact ⟨hrun, hwait⟩
    · -- The call is made now or ended, and is over.
      obtain ⟨hover, hover'⟩ := h.over ht hon as
      have hrun : t ∉ ((d.perform a).2.run as).1 := fun hmem => hover t hmem rfl
      have hwait : t ∉ ((d.perform a).2.run as).2.loop.waiting := fun hmem => hover' t hmem rfl
      have hcalled : a.ends t.key = false → t ∈ (d.perform a).1 := fun hends =>
        by_contra fun hnot => hon ((h.waits_on ht).mpr ⟨hends, hnot⟩)
      constructor
      · constructor
        · exact fun hmem => Or.inl (hmem.resolve_right hrun)
        · rintro (hmem | ⟨hends, -⟩)
          · exact Or.inl hmem
          · exact Or.inl (hcalled hends)
      · constructor
        · exact fun hmem => absurd hmem hwait
        · rintro ⟨⟨hends, -⟩, hnot⟩
          exact absurd (Or.inl (hcalled hends)) hnot

/-! ## All calls of a run -/

/-- The call that scheduling a task after some actions makes. -/
def callAfter (d : Debounce α) (before : List (Action α)) (key : String) (task : α) : Timer α :=
  (d.run before).2.newCall key task

/-- Every call that is made or waits was there or was made by scheduling a task. -/
theorem InStep.exists_schedule (h : d.InStep) {as : List (Action α)}
    (ht : t ∈ (d.run as).1 ∨ t ∈ (d.run as).2.loop.waiting) :
    t ∈ d.loop.waiting ∨ ∃ before key task after,
      as = before ++ .schedule key task :: after ∧ t = d.callAfter before key task := by
  induction as generalizing d with
  | nil => exact Or.inl (ht.resolve_left List.not_mem_nil)
  | cons a as ih =>
    have hrest : t ∈ (d.perform a).1 ∨ (t ∈ ((d.perform a).2.run as).1 ∨
        t ∈ ((d.perform a).2.run as).2.loop.waiting) := by
      rw [Debounce.run, List.mem_append, or_assoc] at ht
      exact ht
    rcases hrest with hcalled | hrest
    · obtain ⟨n, -, hmem, -⟩ := mem_called.mp hcalled
      exact Or.inl hmem
    · rcases ih (h.perform a) hrest with hmem | ⟨before, key, task, after, rfl, rfl⟩
      · rcases h.mem_waiting.mp hmem with ⟨hmem, -⟩ | ⟨key, task, rfl, rfl⟩
        · exact Or.inl hmem
        · exact Or.inr ⟨[], key, task, as, rfl, rfl⟩
      · exact Or.inr ⟨a :: before, key, task, after, rfl, rfl⟩

/-- No call is made twice. -/
theorem InStep.nodup_run (h : d.InStep) (as : List (Action α)) :
    ((d.run as).1.map (·.id)).Nodup := by
  induction as generalizing d with
  | nil => exact List.nodup_nil
  | cons a as ih =>
    rw [Debounce.run, List.map_append, List.nodup_append]
    refine ⟨?_, ih (h.perform a), fun i hi j hj hij => ?_⟩
    · have hsub : (d.perform a).1.Sublist d.loop.waiting := by
        cases a with
        | wait n => exact List.filter_sublist
        | schedule key task => exact List.nil_sublist _
        | cancel key => exact List.nil_sublist _
        | cancelAll => exact List.nil_sublist _
        | dispose => exact List.nil_sublist _
      exact List.pairwise_map.mpr ((h.numbers.sublist hsub).imp fun hlt => Nat.ne_of_lt hlt)
    · obtain ⟨t, ht, rfl⟩ := List.mem_map.mp hi
      obtain ⟨u, hu, rfl⟩ := List.mem_map.mp hj
      obtain ⟨n, rfl, hmem, -⟩ := mem_called.mp ht
      have hout : t ∉ (d.perform (.wait n)).2.loop.waiting := by
        rw [h.mem_waiting]
        rintro (⟨-, -, hnot⟩ | ⟨key, task, heq, -⟩)
        · exact hnot ht
        · cases heq
      exact (h.over hmem hout as).1 u hu hij.symm

/-- The lot of a call, from the actions after it was made. -/
theorem InStep.mem_run_append (h : d.InStep) (before : List (Action α)) (key : String) (task : α)
    (after : List (Action α)) :
    let r := d.run (before ++ .schedule key task :: after)
    (d.callAfter before key task ∈ r.1 ↔ FallsDue key (d.delay * tick) after) ∧
      (d.callAfter before key task ∈ r.2.loop.waiting ↔
        (∀ a ∈ after, a.ends key = false) ∧ ¬FallsDue key (d.delay * tick) after) := by
  have hbefore := h.run before
  have hmade : d.callAfter before key task ∈ ((d.run before).2.schedule key task).loop.waiting := by
    rw [hbefore.waiting_schedule]
    exact List.mem_append_right _ List.mem_cons_self
  -- Calls made before have smaller numbers.
  have hearly : d.callAfter before key task ∉ (d.run before).1 := by
    intro hmem
    have hfresh : ∀ u ∈ (d.run before).1, u.id < (d.run before).2.loop.made := by
      intro u hu
      rcases h.exists_schedule (Or.inl hu) with hu | ⟨as, k, x, bs, rfl, rfl⟩
      · rw [made_run]
        exact Nat.lt_of_lt_of_le (h.made u hu) (Nat.le_add_right _ _)
      · show (d.run as).2.loop.made < _
        rw [made_run, made_run, scheduled, scheduled, List.countP_append, List.countP_cons]
        simp only [Action.isSchedule, if_true]
        omega
    exact absurd (hfresh _ hmem) (Nat.lt_irrefl _)
  have hleft : (d.callAfter before key task).due -
      ((d.run before).2.schedule key task).loop.now = d.delay * tick := by
    have hnow : ((d.run before).2.schedule key task).loop.now = (d.run before).2.loop.now :=
      now_cancel _ key
    rw [hnow, ← delay_run d before]
    show (d.run before).2.loop.now + (d.run before).2.delay * tick - (d.run before).2.loop.now = _
    omega
  have hlot := (hbefore.schedule key task).mem_run hmade after
  rw [hleft] at hlot
  simp only [run_append, Debounce.run, Debounce.perform, List.nil_append, List.mem_append, hearly, false_or]
  exact hlot

/-! ## Other keys -/

/-- When the calls of a key fall due and what they do: the calls without their numbers, which count
the calls of all keys. -/
def forKey (key : String) (ts : List (Timer α)) : List (Int × α) :=
  (ts.filter (·.key == key)).map fun t => (t.due, t.task)

theorem forKey_append (key : String) (ts us : List (Timer α)) :
    forKey key (ts ++ us) = forKey key ts ++ forKey key us := by
  rw [forKey, List.filter_append, List.map_append]
  rfl

theorem forKey_filter_due (key : String) (p : Int → Bool) (ts : List (Timer α)) :
    forKey key (ts.filter fun t => p t.due) = (forKey key ts).filter fun e => p e.1 := by
  rw [forKey, forKey, List.filter_map, List.filter_filter, List.filter_filter]
  refine congrArg _ (List.filter_congr fun t _ => ?_)
  exact Bool.and_comm _ _

/-- What is left for a key when all calls of some key are taken away. -/
theorem forKey_filter_ne (key other : String) (ts : List (Timer α)) :
    forKey key (ts.filter (·.key != other)) = if other = key then [] else forKey key ts := by
  rw [forKey, List.filter_filter]
  by_cases hkey : other = key
  · rw [if_pos hkey, List.map_eq_nil_iff, List.filter_eq_nil_iff]
    intro t _
    simp [hkey]
  · rw [if_neg hkey, forKey]
    refine congrArg _ (List.filter_congr fun t _ => ?_)
    by_cases ht : t.key = key
    · simp [ht, Ne.symm hkey]
    · simp [ht]

/-- Two states that a key cannot tell apart. -/
structure Alike (key : String) (d e : Debounce α) : Prop where
  delay : d.delay = e.delay
  now : d.loop.now = e.loop.now
  calls : forKey key d.loop.waiting = forKey key e.loop.waiting

theorem InStep.forKey_schedule (h : d.InStep) (key other : String) (task : α) :
    forKey key (d.schedule other task).loop.waiting =
      if other = key then [(d.loop.now + d.delay * tick, task)] else forKey key d.loop.waiting := by
  rw [h.waiting_schedule, forKey_append, forKey_filter_ne]
  by_cases hkey : other = key
  · simp [hkey, forKey, newCall]
  · simp [hkey, forKey, newCall]

/-- An action that a key does not notice. -/
theorem InStep.alike_of_not_concerns (h : d.InStep) (ha : a.concerns key = false) :
    (d.perform a).1 = [] ∧ Alike key (d.perform a).2 d := by
  have hdelay := delay_perform d a
  have hnow := now_perform d a
  cases a with
  | schedule other task =>
    have hne : other ≠ key := by simpa [Action.concerns, Action.ends] using ha
    refine ⟨rfl, hdelay, hnow.trans (Int.add_zero _), ?_⟩
    exact (h.forKey_schedule key other task).trans (if_neg hne)
  | cancel other =>
    have hne : other ≠ key := by simpa [Action.concerns, Action.ends] using ha
    refine ⟨rfl, hdelay, hnow.trans (Int.add_zero _), ?_⟩
    show forKey key (d.cancel other).loop.waiting = _
    rw [h.waiting_cancel, forKey_filter_ne, if_neg hne]
  | cancelAll => cases ha
  | dispose => cases ha
  | wait n => cases ha

/-- An action does the same for a key in states that it cannot tell apart. -/
theorem InStep.alike_perform {e : Debounce α} (h : d.InStep) (he : e.InStep) (hde : Alike key d e)
    (a : Action α) : forKey key (d.perform a).1 = forKey key (e.perform a).1 ∧
      Alike key (d.perform a).2 (e.perform a).2 := by
  have hdelay : (d.perform a).2.delay = (e.perform a).2.delay := by
    rw [delay_perform, delay_perform, hde.delay]
  have hnow : (d.perform a).2.loop.now = (e.perform a).2.loop.now := by
    rw [now_perform, now_perform, hde.now]
  cases a with
  | schedule other task =>
    refine ⟨rfl, hdelay, hnow, ?_⟩
    show forKey key (d.schedule other task).loop.waiting = forKey key (e.schedule other task).loop.waiting
    rw [h.forKey_schedule, he.forKey_schedule, hde.now, hde.delay, hde.calls]
  | cancel other =>
    refine ⟨rfl, hdelay, hnow, ?_⟩
    show forKey key (d.cancel other).loop.waiting = forKey key (e.cancel other).loop.waiting
    rw [h.waiting_cancel, he.waiting_cancel, forKey_filter_ne, forKey_filter_ne, hde.calls]
  | cancelAll =>
    refine ⟨rfl, hdelay, hnow, ?_⟩
    show forKey key d.cancelAll.loop.waiting = forKey key e.cancelAll.loop.waiting
    rw [h.waiting_cancelAll, he.waiting_cancelAll]
  | dispose =>
    refine ⟨rfl, hdelay, hnow, ?_⟩
    show forKey key d.cancelAll.loop.waiting = forKey key e.cancelAll.loop.waiting
    rw [h.waiting_cancelAll, he.waiting_cancelAll]
  | wait n =>
    have hfilter : ∀ (p : Int → Bool), forKey key (d.loop.waiting.filter fun t => p t.due) =
        forKey key (e.loop.waiting.filter fun t => p t.due) := by
      intro p
      rw [forKey_filter_due, forKey_filter_due, hde.calls]
    refine ⟨?_, hdelay, hnow, ?_⟩
    · show forKey key (d.loop.waiting.filter fun t => decide (t.due ≤ d.loop.now + n)) =
        forKey key (e.loop.waiting.filter fun t => decide (t.due ≤ e.loop.now + n))
      rw [hde.now]
      exact hfilter fun due => decide (due ≤ e.loop.now + n)
    · show forKey key (d.loop.waiting.filter fun t => !decide (t.due ≤ d.loop.now + n)) =
        forKey key (e.loop.waiting.filter fun t => !decide (t.due ≤ e.loop.now + n))
      rw [hde.now]
      exact hfilter fun due => !decide (due ≤ e.loop.now + n)

/-- A key's calls are what they would be without the actions on other keys. -/
theorem InStep.forKey_run {e : Debounce α} (h : d.InStep) (he : e.InStep) (hde : Alike key d e)
    (as : List (Action α)) :
    forKey key (d.run as).1 = forKey key (e.run (as.filter (·.concerns key))).1 := by
  induction as generalizing d e with
  | nil => rfl
  | cons a as ih =>
    by_cases ha : a.concerns key = true
    · obtain ⟨hcalled, hnext⟩ := h.alike_perform he hde a
      rw [List.filter_cons_of_pos ha, Debounce.run, Debounce.run, forKey_append, forKey_append,
        hcalled, ih (h.perform a) (he.perform a) hnext]
    · obtain ⟨hcalled, hsame⟩ := h.alike_of_not_concerns (Bool.eq_false_iff.mpr ha)
      have hnext : Alike key (d.perform a).2 e :=
        ⟨hsame.delay.trans hde.delay, hsame.now.trans hde.now, hsame.calls.trans hde.calls⟩
      rw [List.filter_cons_of_neg ha, Debounce.run, hcalled, List.nil_append,
        ih (h.perform a) he hnext]

/-! ## What a run calls -/

theorem callAfter_eq (d : Debounce α) (before : List (Action α)) (key : String) (task : α) :
    d.callAfter before key task = ⟨d.loop.made + scheduled before, key,
      d.loop.now + elapsed before + d.delay * tick, task⟩ := by
  rw [callAfter, newCall, made_run, now_run, delay_run]

/-- The table lists the calls that wait. -/
theorem InStep.mem_timers (h : d.InStep) {id : Nat} :
    (key, id) ∈ d.timers ↔ ∃ t ∈ d.loop.waiting, t.key = key ∧ t.id = id := by
  rw [h.table, List.mem_map]
  simp

/-- No key has two calls that wait. -/
theorem InStep.nodup_pending (h : d.InStep) : d.pending.Nodup := by
  have hkeys := h.keys
  rw [Debounce.pending, h.table, List.map_map]
  exact hkeys

section Fresh

variable (delay : Int) {actions : List (Action α)}

/-- The first number is nought, and the time starts there. -/
theorem callAfter_fresh (before : List (Action α)) (key : String) (task : α) :
    ({ delay } : Debounce α).callAfter before key task =
      ⟨scheduled before, key, elapsed before + delay * tick, task⟩ := by
  rw [callAfter_eq]
  simp only [Nat.zero_add, Int.zero_add]

theorem exists_schedule_fresh (ht : t ∈ (({ delay } : Debounce α).run actions).1 ∨
      t ∈ (({ delay } : Debounce α).run actions).2.loop.waiting) :
    ∃ before key task after, actions = before ++ .schedule key task :: after ∧
      t = ({ delay } : Debounce α).callAfter before key task :=
  ((inStep_empty delay).exists_schedule ht).resolve_left List.not_mem_nil

/-- The table has the calls that nothing took out and whose time has not come. -/
theorem mem_timers_fresh {id : Nat} :
    (key, id) ∈ (({ delay } : Debounce α).run actions).2.timers ↔ ∃ before task after,
      actions = before ++ .schedule key task :: after ∧ id = scheduled before ∧
        (∀ a ∈ after, a.ends key = false) ∧ ¬FallsDue key (delay * tick) after := by
  have hempty := inStep_empty (α := α) delay
  rw [(hempty.run actions).mem_timers]
  constructor
  · intro h
    obtain ⟨t, ht, htkey, htid⟩ := h
    obtain ⟨before, k, task, after, rfl, rfl⟩ := exists_schedule_fresh delay (Or.inr ht)
    rw [callAfter_fresh] at htkey htid
    obtain rfl : k = key := htkey
    exact ⟨before, task, after, rfl, htid.symm, (hempty.mem_run_append before k task after).2.mp ht⟩
  · intro h
    obtain ⟨before, task, after, rfl, rfl, hwaits⟩ := h
    refine ⟨_, (hempty.mem_run_append before key task after).2.mpr hwaits, ?_, ?_⟩
    · rw [callAfter_fresh]
    · rw [callAfter_fresh]

end Fresh

/-- **A task runs if and only if its time comes before its key is scheduled or cancelled again.**  A
task that was scheduled after `before` makes the call with the next number, due the delay later; it is
made exactly if it falls due in what comes `after`.  No other calls are made, and none is made twice.
What is called for a key does not depend on the actions on other keys.  The table has each key once,
and has an entry exactly for each task that was neither called nor ended. -/
theorem run_calls_last (delay : Int) (actions : List (Action α)) :
    let r := ({ delay } : Debounce α).run actions
    let call (before : List (Action α)) (key : String) (task : α) : Timer α :=
      ⟨scheduled before, key, elapsed before + delay * tick, task⟩
    (∀ before key task after, actions = before ++ .schedule key task :: after →
      (call before key task ∈ r.1 ↔ FallsDue key (delay * tick) after)) ∧
    (∀ t ∈ r.1, ∃ before key task after, actions = before ++ .schedule key task :: after ∧
      t = call before key task) ∧
    (r.1.map (·.id)).Nodup ∧
    (∀ key, forKey key r.1 =
      forKey key (({ delay } : Debounce α).run (actions.filter (·.concerns key))).1) ∧
    r.2.pending.Nodup ∧
    ∀ key id, (key, id) ∈ r.2.timers ↔ ∃ before task after,
      actions = before ++ .schedule key task :: after ∧ id = scheduled before ∧
        (∀ a ∈ after, a.ends key = false) ∧ ¬FallsDue key (delay * tick) after := by
  intro r call
  have hempty := inStep_empty (α := α) delay
  have hcall : ∀ before key task,
      ({ delay } : Debounce α).callAfter before key task = call before key task :=
    callAfter_fresh delay
  refine ⟨?_, ?_, hempty.nodup_run actions, fun key => hempty.forKey_run hempty ⟨rfl, rfl, rfl⟩ actions,
    (hempty.run actions).nodup_pending, fun key id => mem_timers_fresh delay⟩
  · intro before key task after hsplit
    have hlot := (hempty.mem_run_append before key task after).1
    rwa [hcall, ← hsplit] at hlot
  · intro t ht
    obtain ⟨before, key, task, after, hsplit, ht⟩ := exists_schedule_fresh delay (Or.inl ht)
    exact ⟨before, key, task, after, hsplit, ht.trans (hcall before key task)⟩

/-- Scheduling again starts the time anew and leaves the first task uncalled. -/
example : (({ delay := 2 } : Debounce Nat).run [.schedule "a" 1, .wait 1000000, .schedule "a" 2,
    .wait 1500000, .schedule "b" 3, .wait 500000]).1.map (·.task) = [2] := by
  decide

end Debounce
end TalkDeck
