import TalkDeck.Diagnostic
import TalkDeck.Edit
import TalkDeck.EditDistance
import TalkDeck.Journal

/-
Quick fixes: for a diagnostic, edits that would mend it.  The name a diagnostic is about is read back
from its message, as only the message comes back from the editor.
-/

namespace TalkDeck

/-- An edit of one document offered to the author. -/
structure CodeAction where
  title : String
  diagnostic : Diagnostic
  uri : String
  edit : Edit
  preferred : Option Bool
deriving DecidableEq, Repr

namespace QuickFix

open Text

/-- A non-empty text up to a closing quote. -/
def quotedName? (cs : List Char) : Option String :=
  let name := cs.takeWhile (· != '\x27')
  if name.isEmpty || (cs.dropWhile (· != '\x27')).isEmpty then none else some (String.ofList name)

/-- The quoted name after the first of the lead-ins, tried at every place of the message. -/
def nameAfter? (leads : List String) : List Char → Option String
  | [] => none
  | c :: cs =>
    match leads.findSome? fun lead => (strip? lead.toList (c :: cs)).bind quotedName? with
    | some name => some name
    | none => nameAfter? leads cs

def unknownTypeIn? (message : String) : Option String :=
  nameAfter? ["Unknown action type in step: '", "Unknown action type: '"] message.toList

def missingParamIn? (message : String) : Option String :=
  nameAfter? ["Missing required parameter: '", "missing required parameter: '"] message.toList

def unknownParamIn? (message : String) : Option String :=
  nameAfter? ["Unknown parameter '"] message.toList

/-- The first place in a range, topmost and then leftmost, at which a word stands on its own. -/
def findInRange? (d : Document) (r : Range) (word : List Char) : Option Range :=
  let first := r.start.line
  let last := min r.stop.line d.lineCount
  (List.range' first (last + 1 - first)).findSome? fun n =>
    let l := d.line n
    let start := if n = first then r.start.character else 0
    let limit := if n = r.stop.line then r.stop.character else l.length
    (l.findWord? word start limit).map fun a => Range.onLine n a (a + word.length)

def candidates (c : Catalog) (s : Settings) (word : String) : List String :=
  c.types.filter fun t => decide ((EditDistance.distance word.toList t.toList : Int) ≤ s.typoDistance)

/-- Texts as a list in a note. -/
def listed (names : List String) : String :=
  "[" ++ String.intercalate ", " (names.map quoted) ++ "]"

/-- One replacement for each known type within the edit distance. -/
def corrections (c : Catalog) (s : Settings) (d : Document) (g : Diagnostic) :
    Logged OutOfRange (List CodeAction) := do
  match unknownTypeIn? g.message with
  | none => return []
  | some word =>
    match findInRange? d g.range word.toList with
    | none =>
      note 3 ("'" ++ word ++ "' not found inside its diagnostic range; no typo fix")
      return []
    | some range =>
      let found := candidates c s word
      note 3 ("Typo candidates for '" ++ word ++ "': " ++ listed found)
      return found.map fun t =>
        ⟨"Change to '" ++ t ++ "'", g, d.uri, ⟨range, t⟩, some (found.length == 1)⟩

def stepAt? (b : Block) (p : Position) : Option Step := b.steps.find? (·.range.holds p)

/-- The indentation that lines a new key up with the step's `type:`. -/
def stepIndent (d : Document) (s : Step) : String :=
  match (d.line s.range.start.line).dashBlanks? with
  | some (before, after) => String.ofList (List.replicate (before + 1 + after) ' ')
  | none => "    "

/-- The line after the last parameter; without one, the line after the type. -/
def lineAfter (parameters : List Parameter) (typeRange : Option Range) (otherwise : Nat) : Nat :=
  match parameters.getLast?, typeRange with
  | some p, _ => p.lineRange.stop.line + 1
  | none, some r => r.stop.line + 1
  | none, none => otherwise

/-- Inserts a missing parameter at the end of its block or step. -/
def insertion (d : Document) (g : Diagnostic) : List CodeAction :=
  match missingParamIn? g.message, d.blockAt? g.range.start with
  | some name, some b =>
    let step := if g.code = some (.text "ET008") then stepAt? b g.range.start else none
    let (indent, line) :=
      match step with
      | some s => (stepIndent d s, lineAfter s.parameters s.typeRange (s.range.start.line + 1))
      | none => ("", lineAfter b.parameters b.typeRange b.contentRange.start.line)
    [⟨"Add missing parameter '" ++ name ++ "'", g, d.uri,
      ⟨Range.point line 0, indent ++ name ++ ": \n"⟩, none⟩]
  | _, _ => []

/-- The parameter of the block or of its steps whose key holds the position. -/
def parameterAt? (b : Block) (p : Position) : Option Parameter :=
  (b.parameters ++ b.steps.flatMap (·.parameters)).find? (·.keyRange.holds p)

/-- Deletes the line of an unknown parameter, or the diagnostic's line if there is none. -/
def removal (d : Document) (g : Diagnostic) : Logged OutOfRange (List CodeAction) := do
  match unknownParamIn? g.message with
  | none => return []
  | some name =>
    let (first, last) ←
      match (d.blockAt? g.range.start).bind (parameterAt? · g.range.start) with
      | some p => pure (p.lineRange.start.line, p.lineRange.stop.line)
      | none => do
        note 3 ("Parameter '" ++ name ++ "' not re-located; removing diagnostic line")
        pure (g.range.start.line, g.range.start.line)
    let range ← ExceptT.mk (pure (Range.of first 0 (last + 1) 0))
    return [⟨"Remove unknown parameter '" ++ name ++ "'", g, d.uri, ⟨range, ""⟩, none⟩]

/-- The fixes of one diagnostic, by its code. -/
def fixes (c : Catalog) (s : Settings) (d : Document) (g : Diagnostic) :
    Logged OutOfRange (List CodeAction) :=
  match g.code with
  | some (.text code) =>
    if code = "ET003" ∨ code = "ET007" then corrections c s d g
    else if code = "ET004" ∨ code = "ET008" then pure (insertion d g)
    else if code = "ET005" ∨ code = "ET009" then removal d g
    else pure []
  | _ => pure []

/-- The fixes of a list of diagnostics, in order. -/
def all (c : Catalog) (s : Settings) (d : Document) : List Diagnostic →
    Logged OutOfRange (List CodeAction)
  | [] => pure []
  | g :: gs => do
    let found ← fixes c s d g
    return found ++ (← all c s d gs)

end QuickFix
end TalkDeck
