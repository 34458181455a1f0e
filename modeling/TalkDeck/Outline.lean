import TalkDeck.Deck.Document

/-
The outline of a deck and the regions that can be folded.
-/

namespace TalkDeck

inductive SymbolKind where
  | module
  | function
  | object
  | event
deriving DecidableEq, Repr

/-- The number editors use for a kind of symbol. -/
def SymbolKind.code : SymbolKind → Nat
  | module => 2
  | function => 12
  | object => 19
  | event => 24

/-- A symbol without children of its own. -/
structure LeafSymbol where
  name : String
  kind : SymbolKind
  range : Range
  selection : Range
deriving DecidableEq, Repr

/-- A member of a slide, with the steps it may have. -/
structure MemberSymbol extends LeafSymbol where
  steps : List LeafSymbol
deriving DecidableEq, Repr

structure SlideSymbol extends LeafSymbol where
  members : List MemberSymbol
deriving DecidableEq, Repr

namespace Outline

/-- A type's name, or a word for its absence. -/
def typeName (type : Option String) : String := (namedType type).getD "unknown"

def ofStep (s : Step) : LeafSymbol :=
  ⟨"step " ++ toString (s.index + 1) ++ ": " ++ typeName s.actionType, .event, s.range,
    s.typeRange.getD s.range⟩

def ofBlock (b : Block) : MemberSymbol :=
  ⟨⟨"action: " ++ typeName b.actionType, .function, b.range, b.typeRange.getD b.range⟩,
    b.steps.map ofStep⟩

def ofDirective (d : Inline) : MemberSymbol :=
  ⟨⟨"render: " ++ d.type, .object, d.range, d.typeRange⟩, []⟩

def ofSlide (s : Slide) : SlideSymbol :=
  ⟨⟨(s.title.filter (!·.isEmpty)).getD ("Slide " ++ toString (s.index + 1)), .module, s.range, s.range⟩,
    s.blocks.map ofBlock ++ s.directives.map ofDirective⟩

/-- One symbol for each slide; its blocks and directives stand below it. -/
def symbols (d : Document) : List SlideSymbol := d.slides.map ofSlide

/-- The first and last line of a region. -/
structure Fold where
  first : Nat
  last : Nat
deriving DecidableEq, Repr

def Fold.ofRange (r : Range) : Fold := ⟨r.start.line, r.stop.line⟩

/-- The ranges of more than one line, as regions. -/
def tall (rs : List Range) : List Fold :=
  (rs.filter fun r => decide (r.start.line < r.stop.line)).map Fold.ofRange

/-- The front matter, then the slides and then the blocks of more than one line. -/
def folds (d : Document) : List Fold :=
  (d.frontmatter.map Fold.ofRange).toList ++ tall (d.slides.map (·.range)) ++
    tall (d.blocks.map (·.range))

end Outline
end TalkDeck
