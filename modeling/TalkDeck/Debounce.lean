import TalkDeck.Journal

/-
Delayed tasks, at most one for each key.  A loop holds the calls that it was asked to make later, and
a table says which of them stands for a key.  Scheduling a key again cancels its earlier call, and a
call that is made takes its key out of the table.  Time is a count of nanoseconds that only `advance`
moves.
-/

namespace TalkDeck

/-- A call put off: its number among all calls, the key that it stands for, when it falls due, and
what it does. -/
structure Timer (α : Type) where
  id : Nat
  key : String
  due : Int
  task : α
deriving DecidableEq, Repr

/-- The present time, how many calls were ever put off, and those that wait, in the order in which
they fall due and then in that of their numbers. -/
structure Loop (α : Type) where
  now : Int := 0
  made : Nat := 0
  waiting : List (Timer α) := []
deriving DecidableEq, Repr

namespace Loop

variable {α : Type}

/-- Puts a call behind all that fall due no later. -/
def enqueue (t : Timer α) : List (Timer α) → List (Timer α)
  | [] => [t]
  | u :: us => if u.due ≤ t.due then u :: enqueue t us else t :: u :: us

def callLater (l : Loop α) (delay : Int) (key : String) (task : α) : Loop α :=
  { l with made := l.made + 1, waiting := enqueue ⟨l.made, key, l.now + delay, task⟩ l.waiting }

def cancel (l : Loop α) (id : Nat) : Loop α := { l with waiting := l.waiting.filter (·.id != id) }

/-- Whether a call's time has come. -/
def isDue (l : Loop α) (t : Timer α) : Bool := decide (t.due ≤ l.now)

/-- The calls to be made now. -/
def due (l : Loop α) : List (Timer α) := l.waiting.filter l.isDue

/-- The loop after they are made. -/
def rest (l : Loop α) : Loop α := { l with waiting := l.waiting.filter fun t => !l.isDue t }

end Loop

/-- A delay in milliseconds, the loop, and for each key with a task the number of its call, in the
order of scheduling. -/
structure Debounce (α : Type) where
  delay : Int := 300
  loop : Loop α := {}
  timers : List (String × Nat) := []
deriving DecidableEq, Repr

namespace Debounce

variable {α : Type}

/-- Nanoseconds in a millisecond. -/
def tick : Int := 1000000

def cancel (d : Debounce α) (key : String) : Debounce α :=
  match d.timers.lookup key with
  | some id => { d with loop := d.loop.cancel id, timers := d.timers.filter (·.1 != key) }
  | none => d

def cancelAll (d : Debounce α) : Debounce α :=
  { d with loop := d.timers.foldl (fun l e => l.cancel e.2) d.loop, timers := [] }

def dispose (d : Debounce α) : Debounce α := d.cancelAll

def schedule (d : Debounce α) (key : String) (task : α) : Debounce α :=
  let d := d.cancel key
  { d with
    loop := d.loop.callLater (d.delay * tick) key task
    timers := d.timers ++ [(key, d.loop.made)] }

def scheduleNote (d : Debounce α) (key : String) : Note :=
  ⟨3, "Scheduled " ++ key ++ " in " ++ toString d.delay ++ " ms"⟩

def isPending (d : Debounce α) (key : String) : Bool := d.timers.any (·.1 == key)

def pending (d : Debounce α) : List String := d.timers.map (·.1)

/-- The table after some calls.  A call takes its key out whichever call stands there. -/
def drop (timers : List (String × Nat)) (called : List (Timer α)) : List (String × Nat) :=
  called.foldl (fun es t => es.filter (·.1 != t.key)) timers

/-- The calls that are due, and what is left. -/
def settle (d : Debounce α) : List (Timer α) × Debounce α :=
  (d.loop.due, { d with loop := d.loop.rest, timers := drop d.timers d.loop.due })

/-- Lets time pass. -/
def advance (d : Debounce α) (nanoseconds : Nat) : List (Timer α) × Debounce α :=
  settle { d with loop := { d.loop with now := d.loop.now + nanoseconds } }

theorem isPending_iff {d : Debounce α} {key : String} :
    d.isPending key = true ↔ ∃ e ∈ d.timers, e.1 = key := by
  simp [isPending]

theorem lookup_eq_none_iff {d : Debounce α} {key : String} :
    d.timers.lookup key = none ↔ ¬d.isPending key = true := by
  rw [isPending_iff, List.lookup_eq_none_iff]
  constructor
  · intro h hex
    obtain ⟨e, he, rfl⟩ := hex
    exact absurd (h e he) (by simp)
  · intro h e he
    by_cases hkey : e.1 = key
    · exact absurd ⟨e, he, hkey⟩ h
    · simp [Ne.symm hkey]

theorem isPending_cancel (d : Debounce α) (key other : String) :
    (d.cancel key).isPending other = true ↔ key ≠ other ∧ d.isPending other = true := by
  unfold cancel
  split
  · simp only [isPending_iff, List.mem_filter, bne_iff_ne]
    constructor
    · rintro ⟨e, ⟨he, hk⟩, rfl⟩
      exact ⟨Ne.symm hk, e, he, rfl⟩
    · rintro ⟨hk, e, he, rfl⟩
      exact ⟨e, ⟨he, Ne.symm hk⟩, rfl⟩
  · next hnone =>
    constructor
    · intro h
      refine ⟨?_, h⟩
      rintro rfl
      exact lookup_eq_none_iff.mp hnone h
    · exact And.right

theorem isPending_schedule (d : Debounce α) (key other : String) (task : α) :
    (d.schedule key task).isPending other = true ↔ key = other ∨ d.isPending other = true := by
  have hold : (d.schedule key task).isPending other = true ↔
      key = other ∨ (d.cancel key).isPending other = true := by
    simp [isPending, schedule, or_comm]
  rw [hold, isPending_cancel]
  by_cases hk : key = other
  · simp [hk]
  · simp [hk]

theorem mem_drop {timers : List (String × Nat)} {called : List (Timer α)} {e : String × Nat} :
    e ∈ drop timers called ↔ e ∈ timers ∧ ∀ t ∈ called, e.1 ≠ t.key := by
  unfold drop
  induction called generalizing timers with
  | nil => simp
  | cons t called ih =>
    rw [List.foldl_cons, ih, List.mem_filter, List.forall_mem_cons, bne_iff_ne, and_assoc]

/-- Nothing becomes pending by a call. -/
theorem isPending_of_settle {d : Debounce α} {key : String}
    (h : d.settle.2.isPending key = true) : d.isPending key = true := by
  rw [isPending_iff] at h ⊢
  obtain ⟨e, he, hkey⟩ := h
  exact ⟨e, (mem_drop.mp he).1, hkey⟩

/-- A key with a task is called for, or goes on waiting. -/
theorem isPending_settle {d : Debounce α} {key : String} (h : d.isPending key = true) :
    key ∈ d.settle.1.map (·.key) ∨ d.settle.2.isPending key = true := by
  obtain ⟨e, he, rfl⟩ := isPending_iff.mp h
  by_cases hcalled : e.1 ∈ d.settle.1.map (·.key)
  · exact Or.inl hcalled
  · refine Or.inr (isPending_iff.mpr ⟨e, mem_drop.mpr ⟨he, fun t ht hkey => hcalled ?_⟩, rfl⟩)
    exact List.mem_map.mpr ⟨t, ht, hkey.symm⟩

/-- What can be asked of the timers. -/
inductive Action (α : Type) where
  | schedule (key : String) (task : α)
  | cancel (key : String)
  | cancelAll
  | dispose
  | wait (nanoseconds : Nat)
deriving DecidableEq, Repr

/-- One action, and the calls made in it: calls are made only while time passes. -/
def perform (d : Debounce α) : Action α → List (Timer α) × Debounce α
  | .schedule key task => ([], d.schedule key task)
  | .cancel key => ([], d.cancel key)
  | .cancelAll => ([], d.cancelAll)
  | .dispose => ([], d.dispose)
  | .wait n => d.advance n

/-- Some actions one after the other, and all calls made in them. -/
def run (d : Debounce α) : List (Action α) → List (Timer α) × Debounce α
  | [] => ([], d)
  | a :: as => ((d.perform a).1 ++ ((d.perform a).2.run as).1, ((d.perform a).2.run as).2)

/-- One action after which the loop comes round, so that a task without a delay runs at once. -/
def step (d : Debounce α) (a : Action α) : List (Timer α) × Debounce α := d.run [a, .wait 0]

end Debounce
end TalkDeck
