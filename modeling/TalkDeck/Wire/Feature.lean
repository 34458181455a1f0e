import TalkDeck.Completion
import TalkDeck.Hover
import TalkDeck.Outline
import TalkDeck.QuickFix
import TalkDeck.Wire.Diagnostic
import TalkDeck.Workspace.Index

/-
Answers to editor requests in the shape in which editors exchange them.
-/

namespace TalkDeck
namespace Wire

def edit (e : Edit) : Json := .obj [("range", range e.range), ("newText", .str e.newText)]

def codeAction (a : CodeAction) : Json :=
  .obj ([("title", .str a.title), ("kind", .str "quickfix"),
    ("diagnostics", .arr [diagnostic a.diagnostic]),
    ("edit", .obj [("changes", .obj [(a.uri, .arr [edit a.edit])])])] ++
    member "isPreferred" .bool a.preferred)

def completionItem (i : CompletionItem) : Json :=
  .obj ([("label", .str i.label), ("kind", nat i.kind.code), ("textEdit", edit i.edit),
    ("insertTextFormat", nat 1)] ++ member "detail" .str i.detail ++
    member "documentation" .str i.documentation ++ member "sortText" .str i.sortText)

def hover (h : Hover) : Json :=
  .obj [("contents", .obj [("kind", .str "markdown"), ("value", .str h.markdown)]),
    ("range", range h.range)]

def location (l : Workspace.Location) : Json := .obj [("uri", .str l.uri), ("range", range l.range)]

def leafMembers (s : LeafSymbol) : List (String × Json) :=
  [("name", .str s.name), ("kind", nat s.kind.code), ("range", range s.range),
    ("selectionRange", range s.selection)]

/-- Without steps a member has no children at all. -/
def memberSymbol (s : MemberSymbol) : Json :=
  .obj (leafMembers s.toLeafSymbol ++
    if s.steps.isEmpty then []
    else [("children", .arr (s.steps.map fun t => .obj (leafMembers t)))])

def slideSymbol (s : SlideSymbol) : Json :=
  .obj (leafMembers s.toLeafSymbol ++ [("children", .arr (s.members.map memberSymbol))])

def fold (f : Outline.Fold) : Json :=
  .obj [("startLine", nat f.first), ("endLine", nat f.last), ("kind", .str "region")]

end Wire
end TalkDeck
