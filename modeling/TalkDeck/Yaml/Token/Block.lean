import TalkDeck.Yaml.Token.Tag

/-
Reading block scalars: the literal and the folded style.
-/

namespace TalkDeck
namespace Yaml
namespace Token

/-- What becomes of the line ends after a block scalar. -/
inductive Chomp where
  | strip
  | clip
  | keep
deriving DecidableEq, Repr

structure BlockHeader where
  chomp : Chomp
  increment : Option Nat

def chomp? (c : Char) : Option Chomp :=
  if c == '+' then some .keep else if c == '-' then some .strip else none

/-- The indentation indicator, if one stands here. -/
def readIncrement (c : Cursor) : Except Fault (Option Nat × Cursor) :=
  if c.peek == '0' then fail .zeroIndentation c
  else if c.peek.isDigit then .ok (some (c.peek.toNat - 48), c.next)
  else .ok (none, c)

/-- The chomping and indentation indicators, in either order. -/
def readIndicators (c : Cursor) : Except Fault (BlockHeader × Cursor) := do
  match chomp? c.peek with
  | some chomp =>
    let (increment, d) ← readIncrement c.next
    return (⟨chomp, increment⟩, d)
  | none =>
    let (increment, d) ← readIncrement c
    match increment, chomp? d.peek with
    | some _, some chomp => return (⟨chomp, increment⟩, d.next)
    | _, _ => return (⟨.clip, increment⟩, d)

def readBlockHeader (c : Cursor) : Except Fault (BlockHeader × Cursor) := do
  let (header, d) ← readIndicators c
  if isGap d.peek then return (header, d)
  fail (.expectedBlockHeader d.peek) d

/-- Empty lines before the first text of a block scalar, the widest indentation among them, and the
mark after the last line end. -/
def blockIndentation : Nat → Cursor → List Char → Nat → Mark → List Char × Nat × Mark × Cursor
  | 0, c, breaks, widest, stop => (breaks, widest, stop, c)
  | fuel + 1, c, breaks, widest, stop =>
    if c.peek == ' ' then
      let d := c.next
      blockIndentation fuel d breaks (max widest d.column) stop
    else if isBreak c.peek then
      let (b, d) := c.lineBreak
      blockIndentation fuel d (breaks ++ b) widest d.mark
    else (breaks, widest, stop, c)

/-- Past spaces, as long as the column is below `indent`. -/
def dropIndent (indent : Int) : Nat → Cursor → Cursor
  | 0, c => c
  | fuel + 1, c =>
    if (c.column : Int) < indent && c.peek == ' ' then dropIndent indent fuel c.next else c

/-- Empty lines between the lines of a block scalar, and the mark after the last line end. -/
def blockBreaks (indent : Int) : Nat → Cursor → List Char → Mark → List Char × Mark × Cursor
  | 0, c, breaks, stop => (breaks, stop, c)
  | fuel + 1, c, breaks, stop =>
    let d := dropIndent indent (c.rest.length) c
    if isBreak d.peek then
      let (b, e) := d.lineBreak
      blockBreaks indent fuel e (breaks ++ b) e.mark
    else (breaks, stop, d)

/-- The lines of a block scalar.  Yields the text without the line ends that chomping decides on,
the last line end, the empty lines after it, and the mark and place of the end. -/
def blockLines (folded : Bool) (indent : Int) :
    Nat → Cursor → List Char → List Char → List Char → Mark →
      List Char × List Char × List Char × Mark × Cursor
  | 0, c, text, lineEnd, breaks, stop => (text, lineEnd, breaks, stop, c)
  | fuel + 1, c, text, lineEnd, breaks, stop =>
    if (c.column : Int) = indent && c.peek != nul then
      let opensPlain := !(c.peek == ' ' || c.peek == '\t')
      let (line, d) := c.span (!isBreakOrEnd ·)
      let text := text ++ breaks ++ line
      let (lineEnd, e) := d.lineBreak
      let (breaks, stop, f) := blockBreaks indent (e.rest.length + 1) e [] e.mark
      if (f.column : Int) = indent && f.peek != nul then
        let joint :=
          if folded && lineEnd == ['\n'] && opensPlain && !(f.peek == ' ' || f.peek == '\t') then
            if breaks.isEmpty then [' '] else []
          else lineEnd
        blockLines folded indent fuel f (text ++ joint) lineEnd breaks stop
      else (text, lineEnd, breaks, stop, f)
    else (text, lineEnd, breaks, stop, c)

/-- A block scalar, from its sign, inside a block of the given indentation. -/
def readBlock (folded : Bool) (parent : Int) (c : Cursor) : Except Fault (List Char × Mark × Cursor) := do
  let (header, d) ← readBlockHeader c.next
  let e ← readLineEnd d
  let least := max (parent + 1) 1
  let (indent, breaks, stop, f) :=
    match header.increment with
    | none =>
      let (breaks, widest, stop, f) := blockIndentation (e.rest.length + 1) e [] 0 e.mark
      (max least (widest : Int), breaks, stop, f)
    | some n =>
      let indent := least + n - 1
      let (breaks, stop, f) := blockBreaks indent (e.rest.length + 1) e [] e.mark
      (indent, breaks, stop, f)
  let (text, lineEnd, breaks, stop, g) := blockLines folded indent (f.rest.length + 1) f [] [] breaks stop
  let text := if header.chomp = .strip then text else text ++ lineEnd
  let text := if header.chomp = .keep then text ++ breaks else text
  return (text, stop, g)

end Token
end Yaml
end TalkDeck
