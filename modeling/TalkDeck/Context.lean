import TalkDeck.Deck.Document

/-
What an author is writing at a position of a deck: an action's type, the name of a parameter, or a
parameter's value, in a block or in one of its steps.
-/

namespace TalkDeck

/-- What is being written, and the range it takes. -/
inductive Aim where
  | typeValue (typed : String) (replace : Range)
  | paramName (type : String) (existing : List String) (insert : Range)
  | paramValue (type name typed : String) (replace : Range)
deriving DecidableEq, Repr

inductive Context where
  | unknown
  | block (b : Block) (aim : Aim)
  | step (b : Block) (s : Step) (aim : Aim)
deriving DecidableEq, Repr

namespace Context

open Text

def wholeLine (n : Nat) (l : Line) : Range := Range.onLine n 0 l.length

/-- The value of a key that is not `type`, if the position is not before it. -/
def valueAt? (type : String) (l : Line) (p : Position) (k : Line.KeySpan) : Option Aim :=
  let start := l.valueStart k.colon
  if k.key l = "type" ∨ p.character < start then none
  else
    let text := k.value l
    some (.paramValue type (k.key l) (String.ofList (trim text))
      (Range.onLine p.line start (start + (trimRight text).length)))

/-- The type that starts at `start`; the range starts at `shown`. -/
def typeFrom (l : Line) (p : Position) (start shown : Nat) : Aim :=
  let typed := trim (l.drop start)
  .typeValue (String.ofList typed) (Range.onLine p.line shown (shown + typed.length))

/-- A type if there is none yet, and otherwise the name of a parameter. -/
def fallback (type : Option String) (existing : List String) (l : Line) (p : Position) : Aim :=
  match type with
  | some t => .paramName t existing (wholeLine p.line l)
  | none => .typeValue "" (wholeLine p.line l)

/-- The aim inside a step. -/
def stepAim (s : Step) (l : Line) (p : Position) : Aim :=
  match l.stepTypeStart? with
  | some start => typeFrom l p start (l.valueStart ((Line.typeIndex? 0 l).getD 0 + 4))
  | none =>
    let type := namedType s.actionType
    let value := do valueAt? (← type) l p (← l.stepKey?)
    value.getD (fallback type (s.parameters.map (·.key) ++ ["type"]) l p)

/-- The aim in a block outside its steps. -/
def blockAim (b : Block) (l : Line) (p : Position) : Aim :=
  if l.isTypeLine then
    let start := l.valueStart (blankLead l + 4)
    typeFrom l p start start
  else
    let type := namedType b.actionType
    let value := do valueAt? (← type) l p (← l.indentedKey?)
    value.getD (fallback type (b.parameters.map (·.key)) l p)

/-- The context of a position. -/
def detect (sequenceType : String) (d : Document) (p : Position) : Context :=
  match d.blockAt? p with
  | none => .unknown
  | some b =>
    let l := d.line p.line
    let step := if b.actionType = some sequenceType then b.steps.find? (·.range.holds p) else none
    match step with
    | some s => .step b s (stepAim s l p)
    | none => .block b (blockAim b l p)

end Context
end TalkDeck
