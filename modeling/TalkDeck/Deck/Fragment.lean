import TalkDeck.Deck.Line
import TalkDeck.Position
import TalkDeck.Yaml.Value

/-
The content of an action block: a markup mapping, or a fault with the range it is shown at.  Ranges
count from the fragment's own first line.
-/

namespace TalkDeck

/-- A fault of a fragment as an editor shows it. -/
structure ParseError where
  message : String
  range : Range
  /-- The line and column at which reading stopped, unless the fault belongs to no place. -/
  mark : Option (Nat × Nat)
deriving DecidableEq, Repr

/-- A `key: value` line and the value its key has in the mapping. -/
structure Parameter where
  key : String
  value : Yaml.Value
  keyRange : Range
  valueRange : Range
  lineRange : Range
deriving DecidableEq, Repr

namespace Fragment

open Text

/-- What a fragment holds. -/
inductive Outcome where
  | empty
  | mapping (v : Yaml.Value)
  | broken (e : ParseError)
deriving DecidableEq, Repr

namespace Outcome

def value? : Outcome → Option Yaml.Value
  | mapping v => some v
  | _ => none

def error? : Outcome → Option ParseError
  | broken e => some e
  | _ => none

end Outcome

def atLine : List Char := "at line ".toList

/-- Whether blanks, `at line` and a digit come next. -/
def isLocation (cs : List Char) : Bool :=
  cs.head?.any isBlank && ((strip? atLine (trimLeft cs)).bind List.head?).any isDecimal

/-- The text before the first location that is not at the very start. -/
def beforeLocation? : List Char → List Char → Option (List Char)
  | _, [] => none
  | before, c :: cs =>
    if isLocation cs then some (before ++ [c]) else beforeLocation? (before ++ [c]) cs

/-- The first line of a message, without the location it may end in and what follows that. -/
def cleanMessage (message : String) : String :=
  let first := (lines message.toList).headD []
  String.ofList (trim ((beforeLocation? [] first).getD first))

def notMapping : String := "Action block content must be a YAML mapping (key: value pairs)"
def tooDeep : String := "YAML nesting is too deep to parse"
def unknownFault : String := "Unknown YAML parse error"

/-- The first line of a fragment. -/
def firstLine (text : List Char) : Range := Range.onLine 0 0 ((lines text).headD []).length

/-- From the mark to the end of its line. -/
def markRange (text : List Char) (m : Yaml.Mark) : Range :=
  let length := ((lines text)[m.line]?.getD []).length
  Range.onLine m.line m.column (max m.column length)

/-- Reads a fragment.  Some faulty values end the reading of the whole deck. -/
def read (limits : Limits) (text : List Char) : Except Yaml.Abort Outcome :=
  match Yaml.Value.ofText limits text with
  | .ok none => .ok .empty
  | .ok (some v) =>
    if v.scalar? = some .null then .ok .empty
    else if v.isMap then .ok (.mapping v)
    else .ok (.broken ⟨notMapping, firstLine text, none⟩)
  | .error (.marked p m) =>
    .ok (.broken ⟨cleanMessage p.message, markRange text m, some (m.line, m.column)⟩)
  | .error (.unmarked p) =>
    let message := cleanMessage p.message
    .ok (.broken ⟨if message.isEmpty then unknownFault else message, firstLine text, none⟩)
  | .error .tooDeep => .ok (.broken ⟨tooDeep, firstLine text, none⟩)
  | .error (.abort a) => .error a

/-- The parameter of one line, if its key is at the left edge and in the mapping. -/
def parameter? (v : Yaml.Value) (n : Nat) (l : Line) : Option Parameter := do
  let k ← l.topKey?
  let value ← v.get? (k.key l)
  let start := l.valueStart k.colon
  return {
    key := k.key l
    value
    keyRange := Range.onLine n k.start k.stop
    valueRange := Range.onLine n start (max start (trimRight l).length)
    lineRange := Range.onLine n 0 l.length }

/-- The parameters of a fragment, in the order of its lines. -/
def parameters (text : List Char) (v : Yaml.Value) : List Parameter :=
  (lines text).zipIdx.filterMap fun (l, n) => parameter? v n l

end Fragment

namespace ParseError

def down (n : Nat) (e : ParseError) : ParseError := { e with range := e.range.down n }

def moved (lines characters : Int) (e : ParseError) : Except OutOfRange ParseError := do
  return { e with range := ← e.range.moved lines characters }

end ParseError

/-- A fault moves with its range; a mapping has none. -/
def Fragment.Outcome.down (n : Nat) : Outcome → Outcome
  | broken e => broken (e.down n)
  | o => o

namespace Parameter

def down (n : Nat) (p : Parameter) : Parameter :=
  { p with
    keyRange := p.keyRange.down n
    valueRange := p.valueRange.down n
    lineRange := p.lineRange.down n }

def moved (lines : Int) (p : Parameter) : Except OutOfRange Parameter := do
  return { p with
    keyRange := ← p.keyRange.moved lines 0
    valueRange := ← p.valueRange.moved lines 0
    lineRange := ← p.lineRange.moved lines 0 }

end Parameter
end TalkDeck
