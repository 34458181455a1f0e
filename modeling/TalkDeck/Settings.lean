import TalkDeck.Limits
import TalkDeck.Number.Shortest

/-
The settings of the tools, and how far their calls may nest.
-/

namespace TalkDeck

/-- A number of seconds.  A whole number is written without a point. -/
inductive Seconds where
  | whole (n : Int)
  | real (x : Binary64)
deriving DecidableEq, Repr

namespace Seconds

def text : Seconds → String
  | whole n => toString n
  | real x => String.ofList x.text

/-- To the nearest nanosecond; none for a time that is no finite number. -/
def nanoseconds : Seconds → Int
  | whole n => n * tenTo 9
  | real (.finite s m e) =>
    let (num, den) := Binary64.scaled (m * tenTo 9) 1 (-e)
    let n : Int := Binary64.roundDiv num den
    if s then -n else n
  | real _ => 0

/-- Whether any time passes at all, however short. -/
def isPositive : Seconds → Bool
  | whole n => decide (0 < n)
  | real (.finite s m _) => !s && m != 0
  | real (.infinite s) => !s
  | real .nan => false

end Seconds

structure Settings where
  /-- The action type whose `steps` hold further actions. -/
  sequenceType : String := "sequence"
  /-- The source named on every diagnostic. -/
  diagnosticSource : String := "Executable Talk"
  /-- The largest edit distance at which a correction is offered. -/
  typoDistance : Int := 2
  /-- Milliseconds between the last edit and the diagnostics. -/
  debounceMs : Int := 300
  /-- How long to wait for an answer of the client. -/
  clientTimeout : Seconds := .real (Binary64.ofNat 5)
  /-- Which files of a directory are decks. -/
  deckPattern : String := "**/*.deck.md"
  reportFile : String := "diagnostics.json"
  /-- Whether warnings count as failures. -/
  strict : Bool := false
  /-- No variable sets these: they come with the runtime. -/
  limits : Limits := .usual
deriving DecidableEq, Repr

end TalkDeck
