import TalkDeck.Deck.Fragment

/-
Action blocks: the lines between an action fence and the next closing fence, read as a markup
mapping.  A block of the sequence type has steps, which are found in the text by their `- type:`
lines and matched with the members of the mapping's `steps` by their order.
-/

namespace TalkDeck

structure Step where
  index : Nat
  range : Range
  actionType : Option String
  typeRange : Option Range
  parameters : List Parameter
deriving DecidableEq, Repr

structure Block where
  /-- From the opening fence to the closing one. -/
  range : Range
  contentRange : Range
  text : List Char
  outcome : Fragment.Outcome
  actionType : Option String
  typeRange : Option Range
  parameters : List Parameter
  steps : List Step
  /-- No closing fence was found before the slide ended. -/
  unclosed : Bool
deriving DecidableEq, Repr

/-- A type, unless it is missing or empty. -/
def namedType (type : Option String) : Option String := type.filter (!·.isEmpty)

namespace Step

/-- The parameter of one line of a step. -/
def parameter? (v : Yaml.Value) (n : Nat) (l : Line) : Option Parameter := do
  let k ← l.stepKey?
  let key := k.key l
  if key = "type" then none
  else
    let value ← v.get? key
    let start := l.valueStart k.colon
    return {
      key
      value
      keyRange := Range.onLine n k.start k.stop
      valueRange := Range.onLine n start (l.trimmedStop start)
      lineRange := Range.onLine n 0 l.length }

/-- The value of the first `type:` in the lines of a step. -/
def typeRange? (ls : List (Line × Nat)) : Option Range :=
  ls.findSome? fun (l, n) => l.stepTypeStart?.map fun start => Range.onLine n start (l.trimmedStop start)

/-- A step from its numbered lines and the member of `steps` at its index.  Only a mapping has a
type and parameters. -/
def ofLines (index : Nat) (ls : List (Line × Nat)) (member : Option Yaml.Value) : Step :=
  let first := (ls.head?.map (·.2)).getD 0
  let last := ls.getLast?.getD ([], first)
  let range : Range := ⟨⟨first, 0⟩, ⟨last.2, last.1.length⟩⟩
  match member with
  | some v =>
    if v.isMap then
      { index, range
        actionType := (v.get? "type").bind (·.str?)
        typeRange := typeRange? ls
        parameters := ls.filterMap fun (l, n) => parameter? v n l }
    else ⟨index, range, none, none, []⟩
  | none => ⟨index, range, none, none, []⟩

/-- Groups numbered lines by step: each `- type:` line starts a group, and lines before the first
belong to none. -/
def groups : List (Line × Nat) → List (List (Line × Nat))
  | [] => []
  | (l, n) :: ls =>
    if l.isStepStart then
      ((l, n) :: ls.takeWhile fun (l, _) => !l.isStepStart) :: groups ls
    else groups ls

/-- The steps of a block's numbered lines.  Groups beyond the members of `steps` are left out. -/
def ofBlock (ls : List (Line × Nat)) (members : List (Option Yaml.Value)) : List Step :=
  ((groups ls).zip members).zipIdx.map fun ((group, member), index) => ofLines index group member

end Step

namespace Block

/-- The lines of a block before they are read. -/
structure Raw where
  /-- The line of the opening fence. -/
  first : Nat
  /-- The line of the closing fence, or the last line of the slide. -/
  last : Nat
  content : List Line
  unclosed : Bool
deriving DecidableEq, Repr

/-- The blocks of consecutive lines, the first of which has number `n`, with perhaps a block open:
the line of its fence and its content, newest first. -/
def scan : Nat → Option (Nat × List Line) → List Line → List Raw
  | _, none, [] => []
  | n, some (first, content), [] => [⟨first, n - 1, content.reverse, true⟩]
  | n, none, l :: ls => scan (n + 1) (if l.isActionFence then some (n, []) else none) ls
  | n, some (first, content), l :: ls =>
    if l.isFenceClose then ⟨first, n, content.reverse, false⟩ :: scan (n + 1) none ls
    else scan (n + 1) (some (first, l :: content)) ls

/-- The value of the first `type:` at the left edge. -/
def typeRange? (ls : List (Line × Nat)) : Option Range :=
  ls.findSome? fun (l, n) => l.typeStart?.map fun start => Range.onLine n start (l.trimmedStop start)

/-- A block from its lines and from what they hold. -/
def ofOutcome (sequenceType : String) (r : Raw) (outcome : Fragment.Outcome) : Block :=
  let text := Text.unlines r.content
  let start := r.first + 1
  let ls := r.content.zipIdx start
  let value := outcome.value?
  let actionType := (value.bind (·.get? "type")).bind (·.str?)
  let stop := start + (r.content.length - 1)
  { range := ⟨⟨r.first, 0⟩, ⟨r.last, if r.unclosed then 0 else 3⟩⟩
    contentRange := ⟨⟨start, 0⟩, ⟨stop, (r.content.getLast?.getD []).length⟩⟩
    text
    outcome := outcome.down start
    actionType
    typeRange := if actionType.isSome then typeRange? ls else none
    parameters := ((value.map (Fragment.parameters text)).getD []).map (·.down start)
    steps :=
      if actionType = some sequenceType then
        match (value.bind (·.get? "steps")).bind (·.items?) with
        | some members => Step.ofBlock ls members
        | none => []
      else []
    unclosed := r.unclosed }

def ofRaw (limits : Limits) (sequenceType : String) (r : Raw) : Except Yaml.Abort Block := do
  let outcome ← Fragment.read limits (Text.unlines r.content)
  return ofOutcome sequenceType r outcome

/-- The markup mapping of a block that holds one. -/
def value? (b : Block) : Option Yaml.Value := b.outcome.value?

def error? (b : Block) : Option ParseError := b.outcome.error?

end Block
end TalkDeck
