/-
Positions and ranges in a text: zero-based lines and characters, a character being one code point.
A range holds both of its ends.
-/

namespace TalkDeck

structure Position where
  line : Nat
  character : Nat
deriving DecidableEq, Repr, Inhabited

namespace Position

/-- The largest line or character an editor can be told about. -/
def limit : Nat := 2147483647

/-- Line first, then character. -/
def le (p q : Position) : Prop := p.line < q.line ∨ (p.line = q.line ∧ p.character ≤ q.character)

instance (p q : Position) : Decidable (le p q) := by unfold le; infer_instance

end Position

/-- A coordinate that no editor position can hold. -/
structure OutOfRange where
  ofLine : Bool
  value : Int
deriving DecidableEq, Repr

namespace OutOfRange

def message (e : OutOfRange) : String :=
  "Position." ++ (if e.ofLine then "line" else "character") ++
    " should be in range [0:2147483647], but was " ++ toString e.value ++ "."

end OutOfRange

namespace Position

/-- A position from any two integers.  The line is looked at before the character. -/
def of (line character : Int) : Except OutOfRange Position :=
  if line < 0 ∨ (limit : Int) < line then .error ⟨true, line⟩
  else if character < 0 ∨ (limit : Int) < character then .error ⟨false, character⟩
  else .ok ⟨line.toNat, character.toNat⟩

end Position

structure Range where
  start : Position
  stop : Position
deriving DecidableEq, Repr, Inhabited

namespace Range

/-- A range from any four integers.  The start is looked at before the end. -/
def of (startLine startChar stopLine stopChar : Int) : Except OutOfRange Range := do
  let start ← Position.of startLine startChar
  let stop ← Position.of stopLine stopChar
  return ⟨start, stop⟩

/-- The span from character `a` to character `b` of one line. -/
def onLine (line a b : Nat) : Range := ⟨⟨line, a⟩, ⟨line, b⟩⟩

/-- The empty range at a position. -/
def point (line character : Nat) : Range := onLine line character character

/-- The same range `n` lines further down. -/
def down (n : Nat) (r : Range) : Range :=
  ⟨⟨r.start.line + n, r.start.character⟩, ⟨r.stop.line + n, r.stop.character⟩⟩

/-- The same range moved by any number of lines and characters, if it stays within the limit. -/
def moved (lines characters : Int) (r : Range) : Except OutOfRange Range :=
  of (r.start.line + lines) (r.start.character + characters)
    (r.stop.line + lines) (r.stop.character + characters)

/-- Whether a position lies in the range, both ends included. -/
def holds (r : Range) (p : Position) : Bool :=
  if p.line < r.start.line ∨ r.stop.line < p.line then false
  else if p.line = r.start.line ∧ p.character < r.start.character then false
  else if p.line = r.stop.line ∧ r.stop.character < p.character then false
  else true

/-- Membership is the two comparisons in the order of positions. -/
theorem holds_iff (r : Range) (p : Position) :
    r.holds p = true ↔ Position.le r.start p ∧ Position.le p r.stop := by
  unfold holds Position.le
  split
  · simp; omega
  · split
    · simp; omega
    · split
      · simp; omega
      · simp; omega

end Range
end TalkDeck
