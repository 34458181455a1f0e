import TalkDeck.Catalog.Basic
import TalkDeck.Context
import TalkDeck.Edit
import TalkDeck.Settings

/-
Completion: what could be written at a position, with the edit that writes it.
-/

namespace TalkDeck

inductive CompletionItemKind where
  | property
  | value
  | enumMember
deriving DecidableEq, Repr

/-- The number editors use for a kind of item. -/
def CompletionItemKind.code : CompletionItemKind → Nat
  | property => 10
  | value => 12
  | enumMember => 20

structure CompletionItem where
  label : String
  kind : CompletionItemKind
  detail : Option String := none
  documentation : Option String := none
  edit : Edit
  sortText : Option String := none
deriving DecidableEq, Repr

namespace Completion

open Text

/-- The word typed at the end of the text after `[label](scheme`. -/
def typedAt? (scheme : List Char) (inWord : Char → Bool) : List Char → Option (List Char)
  | [] => none
  | c :: cs =>
    let here :=
      if c = '[' then
        (strip? ([']', '('] ++ scheme) (cs.dropWhile (· != ']'))).filter (·.all inWord)
      else none
    match here with
    | some word => some word
    | none => typedAt? scheme inWord cs

def isSmall (c : Char) : Bool := decide ('a' ≤ c ∧ c ≤ 'z')

def actionTyped? : List Char → Option (List Char) :=
  typedAt? "action:".toList fun c => isSmall c || c == '.'

def renderTyped? : List Char → Option (List Char) := typedAt? "render:".toList isSmall

/-- The documentation of an action that needs a trusted workspace. -/
def trustWarning (description : String) : String :=
  "⚠️ Requires Workspace Trust\n\n" ++ description

def startsWith (s lead : String) : Bool := (strip? lead.toList s.toList).isSome

/-- The known types that start with what was typed. -/
def types (c : Catalog) (typed : String) (range : Range) (without : Option String) :
    List CompletionItem :=
  (c.specs.filter fun s => some s.type != without && startsWith s.type typed).map fun s =>
    { label := s.type
      kind := .value
      detail := some s.description
      documentation := some (if s.requiresTrust then trustWarning s.description else s.description)
      edit := ⟨range, s.type⟩
      sortText := some s.type }

/-- The parameters of a type that are not there yet, if any; required ones sort first. -/
def paramNames (c : Catalog) (type : String) (existing : List String) (range : Range) :
    Option (List CompletionItem) := do
  let s ← c.spec? type
  let items := (s.parameters.filter fun p => !existing.contains p.name).map fun p =>
    { label := p.name
      kind := .property
      detail := some (p.type.name ++ if p.required then " (required)" else "")
      documentation := some p.description
      edit := ⟨range, p.name ++ ": "⟩
      sortText := some ((if p.required then "0" else "1") ++ "_" ++ p.name) : CompletionItem }
  if items.isEmpty then none else some items

/-- The values of a parameter: the allowed ones, or the two truth values. -/
def paramValues (c : Catalog) (type name : String) (range : Range) : Option (List CompletionItem) := do
  let p ← (← c.spec? type).parameter? name
  let item (kind : CompletionItemKind) (v : String) : CompletionItem :=
    { label := v, kind, edit := ⟨range, v⟩ }
  let allowed := p.allowed.getD []
  if !allowed.isEmpty then some (allowed.map (item .enumMember))
  else if p.type = .boolean then some (["true", "false"].map (item .value))
  else none

def renderTypes (typed : String) (range : Range) : List CompletionItem :=
  (renderSpecs.filter fun s => startsWith s.type typed).map fun s =>
    { label := s.type, kind := .value, detail := some s.description, edit := ⟨range, s.type⟩ }

/-- The items for what is being written; `without` is a type not to offer. -/
def ofAim (c : Catalog) (without : Option String) : Aim → Option (List CompletionItem)
  | .typeValue typed range => some (types c typed range without)
  | .paramName type existing range => paramNames c type existing range
  | .paramValue type name _ range => paramValues c type name range

/-- The items at a position, or none where nothing can be completed. -/
def itemsAt (c : Catalog) (s : Settings) (d : Document) (p : Position) : Option (List CompletionItem) :=
  let before := (d.line p.line).take p.character
  let typedRange (word : List Char) : Range :=
    Range.onLine p.line (p.character - word.length) p.character
  match actionTyped? before with
  | some word => some (types c (String.ofList word) (typedRange word) none)
  | none =>
    match renderTyped? before with
    | some word => some (renderTypes (String.ofList word) (typedRange word))
    | none =>
      match Context.detect s.sequenceType d p with
      | .unknown => none
      | .block _ aim => ofAim c none aim
      | .step _ _ aim => ofAim c (some s.sequenceType) aim

end Completion
end TalkDeck
