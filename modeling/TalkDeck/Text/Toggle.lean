/-
Character classes as toggle lists: a strictly increasing list of code points at which membership
changes, starting outside the class.  A code point belongs to the class exactly when an odd number
of toggles lie at or below it.
-/

namespace TalkDeck
namespace Text

/-- Whether an odd number of toggles lie at or below `n`.  The list is read only up to `n`. -/
def toggled : List Nat → Nat → Bool
  | [], _ => false
  | t :: ts, n => if n < t then false else !toggled ts n

/-- The last toggle at or below `n`, the start of the run that holds `n`. -/
def lastToggle : List Nat → Nat → Nat → Nat
  | [], _, d => d
  | t :: ts, n, d => if n < t then d else lastToggle ts n t

end Text
end TalkDeck
