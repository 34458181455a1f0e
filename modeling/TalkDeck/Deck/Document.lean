import TalkDeck.Deck.Block
import TalkDeck.Deck.Inline

/-
Decks.  A deck is cut into slides at its delimiter lines; front matter at the top and fenced code
hide delimiters.  Slides, blocks and links keep the ranges of the text they were read from.
-/

namespace TalkDeck

structure Slide where
  index : Nat
  range : Range
  title : Option String
  blocks : List Block
  links : List Inline
  directives : List Inline
deriving DecidableEq, Repr

structure Document where
  uri : String
  version : Int
  content : String
  slides : List Slide
  frontmatter : Option Range
deriving DecidableEq, Repr

namespace Document

/-- The first delimiter among lines of which the first has number `n`, with its length. -/
def delimiterFrom (n : Nat) : List Line → Option (Nat × Nat)
  | [] => none
  | l :: ls => if l.isDelimiter then some (n, l.length) else delimiterFrom (n + 1) ls

/-- Front matter: a delimiter on the first line, and all up to the next delimiter. -/
def frontmatterOf : List Line → Option Range
  | [] => none
  | l :: ls =>
    if l.isDelimiter then
      (delimiterFrom 1 ls).map fun (n, length) => ⟨⟨0, 0⟩, ⟨n, length⟩⟩
    else none

/-- The line after the front matter. -/
def bodyStart (frontmatter : Option Range) : Nat :=
  match frontmatter with
  | some r => r.stop.line + 1
  | none => 0

/-- The delimiters outside fenced code, among lines of which the first has number `n`.  A line that
opens with a fence switches between code and text. -/
def boundariesFrom (n : Nat) (inCode : Bool) : List Line → List Nat
  | [] => []
  | l :: ls =>
    if l.isFence then boundariesFrom (n + 1) (!inCode) ls
    else if !inCode && l.isDelimiter then n :: boundariesFrom (n + 1) inCode ls
    else boundariesFrom (n + 1) inCode ls

/-- The spans between boundaries in a text of `size` lines: each from its first line up to the
boundary that ends it, or to the end of the text. -/
def spans (start : Nat) (boundaries : List Nat) (size : Nat) : List (Nat × Nat) :=
  match boundaries with
  | [] => [(start, size)]
  | b :: bs => (start, b) :: spans (b + 1) bs size

def titleOf (ls : List Line) : Option String :=
  (ls.findSome? (·.heading?)).map String.ofList

/-- The slide of the lines from `first` up to `beyond`.  A slide without lines has an empty range at
its first line, or at the end of the text when there is no such line. -/
def slideOf (limits : Limits) (sequenceType : String) (all : List Line)
    (index first beyond : Nat) : Except Yaml.Abort Slide := do
  if beyond ≤ first then
    let last := all.length - 1
    let range :=
      if first ≤ last then Range.point first 0 else Range.point last (all.getLast?.getD []).length
    return ⟨index, range, none, [], [], []⟩
  else
    let ls := (all.drop first).take (beyond - first)
    let blocks ← (Block.scan first none ls).mapM (Block.ofRaw limits sequenceType)
    return {
      index
      range := ⟨⟨first, 0⟩, ⟨beyond - 1, (ls.getLast?.getD []).length⟩⟩
      title := titleOf ls
      blocks
      links := Inline.ofLines Inline.actionForm first ls
      directives := Inline.ofLines Inline.renderForm first ls }

def slidesOf (limits : Limits) (sequenceType : String) (all : List Line)
    (frontmatter : Option Range) : Except Yaml.Abort (List Slide) :=
  let start := bodyStart frontmatter
  let boundaries := boundariesFrom start false (all.drop start)
  (spans start boundaries all.length).zipIdx.mapM fun ((first, beyond), index) =>
    slideOf limits sequenceType all index first beyond

/-- Reads a deck.  Only a value that stops its markup reader stops the whole.  No position is checked
against `Position.limit` here: a text is taken to have no line or character beyond it. -/
def create (limits : Limits) (uri : String) (version : Int) (content sequenceType : String) :
    Except Yaml.Abort Document := do
  let all := Text.lines content.toList
  let frontmatter := frontmatterOf all
  let slides ← slidesOf limits sequenceType all frontmatter
  return ⟨uri, version, content, slides, frontmatter⟩

def lines (d : Document) : List Line := Text.lines d.content.toList

/-- A line by its number, empty if there is none. -/
def line (d : Document) (n : Nat) : Line := (d.lines[n]?).getD []

def lineCount (d : Document) : Nat := d.lines.length

def slideAt? (d : Document) (p : Position) : Option Slide := d.slides.find? (·.range.holds p)

def blocks (d : Document) : List Block := d.slides.flatMap (·.blocks)

/-- The first block whose content holds the position. -/
def blockAt? (d : Document) (p : Position) : Option Block := d.blocks.find? (·.contentRange.holds p)

end Document
end TalkDeck
