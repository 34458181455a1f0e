import TalkDeck.Catalog.Basic
import TalkDeck.Deck.Document

/-
Hover texts: what the catalog says about the thing under the cursor, as markdown.
-/

namespace TalkDeck

structure Hover where
  markdown : String
  range : Range
deriving DecidableEq, Repr

namespace Hover

/-- A text in code style. -/
def code (s : String) : String := "`" ++ s ++ "`"

def joinLines (ls : List String) : String := String.intercalate "\n" ls

def paramSummary (params : List (String × InlineParam)) : String :=
  if params.isEmpty then "*No parameters*"
  else joinLines (params.map fun (k, p) => "- " ++ code k ++ ": " ++ code p.value)

/-- One line of the table of parameters. -/
def row (p : ParameterSpec) : String :=
  let allowed := p.allowed.getD []
  "| " ++ code p.name ++ " | " ++ code p.type.name ++ " | " ++ (if p.required then "✅" else "") ++
    " | " ++ p.description ++
    (if allowed.isEmpty then "" else " (" ++ String.intercalate ", " allowed ++ ")") ++ " |"

/-- What an action does, and the table of its parameters. -/
def ofType (c : Catalog) (type : Option String) (range : Range) : Option Hover := do
  let s ← c.spec? (← namedType type)
  let trust := if s.requiresTrust then "⚠️ **Requires Workspace Trust**\n\n" else ""
  return ⟨joinLines
    (["### " ++ code s.type, "", trust ++ s.description, "",
      "| Parameter | Type | Required | Description |",
      "|-----------|------|----------|-------------|"] ++ s.parameters.map row), range⟩

def ofParam (c : Catalog) (type : Option String) (name : String) (range : Range) : Option Hover := do
  let s ← c.spec? (← namedType type)
  let p ← s.parameter? name
  let allowed := p.allowed.getD []
  return ⟨joinLines
    (["**" ++ code p.name ++ "**: " ++ code p.type.name ++
        (if p.required then " *(required)*" else ""), "", p.description] ++
      if allowed.isEmpty then []
      else ["", "Allowed values: " ++ String.intercalate ", " (allowed.map code)]), range⟩

/-- The first parameter whose key holds the position, with its hover. -/
def keyAt? (c : Catalog) (type : Option String) (ps : List Parameter) (p : Position) :
    Option (Option Hover) :=
  (ps.find? (·.keyRange.holds p)).map fun q => ofParam c type q.key q.keyRange

/-- The hover of a type value or else of a key; none if the position is on neither. -/
def partAt? (c : Catalog) (type : Option String) (typeRange : Option Range) (ps : List Parameter)
    (p : Position) : Option (Option Hover) :=
  match typeRange.filter (·.holds p) with
  | some r => some (ofType c type r)
  | none => keyAt? c type ps p

def inBlock? (c : Catalog) (d : Document) (p : Position) : Option Hover := do
  let b ← d.blockAt? p
  match partAt? c b.actionType b.typeRange b.parameters p with
  | some h => h
  | none =>
    (b.steps.findSome? fun s => partAt? c s.actionType s.typeRange s.parameters p).join

/-- The hover of the first link that holds the position and has one to give. -/
def inLink? (c : Catalog) (p : Position) : List Inline → Option Hover
  | [] => none
  | l :: ls =>
    if l.range.holds p then
      if l.typeRange.holds p then ofType c (some l.type) l.typeRange
      else
        match c.spec? l.type with
        | some s =>
          some ⟨joinLines ["### Action: " ++ code l.type, "", s.description, "", paramSummary l.params],
            l.range⟩
        | none => inLink? c p ls
    else inLink? c p ls

def inDirective? (p : Position) (ds : List Inline) : Option Hover := do
  let d ← ds.find? (·.range.holds p)
  let description := ((renderSpec? d.type).map (·.description)).getD "Unknown render type"
  let heading := "### " ++ code ("render:" ++ d.type) ++ "\n\n" ++ description
  if d.typeRange.holds p then return ⟨heading, d.typeRange⟩
  return ⟨heading ++ "\n\n" ++ paramSummary d.params, d.range⟩

/-- The hover at a position: of a link, of a directive, or of a part of a block. -/
def hoverAt (c : Catalog) (d : Document) (p : Position) : Option Hover :=
  (inLink? c p (d.slides.flatMap (·.links))).orElse fun _ =>
    (inDirective? p (d.slides.flatMap (·.directives))).orElse fun _ => inBlock? c d p

end Hover
end TalkDeck
