import TalkDeck.Yaml.Token

/-
Reading plain scalars: text without quotes, which ends at a colon or a comment and may run over
several lines.
-/

namespace TalkDeck
namespace Yaml
namespace Token

def isFlowMark (c : Char) : Bool := [',', '[', ']', '{', '}'].contains c

/-- Whether plain text stops before `c` when `next` follows. -/
def plainStops (inFlow : Bool) (c next : Char) : Bool :=
  isWideGap c || (c == ':' && (isWideGap next || (inFlow && isFlowMark next))) ||
    (inFlow && (c == '?' || isFlowMark c))

/-- The plain text that comes first, up to a blank. -/
def plainRun (inFlow : Bool) : List Char → List Char
  | [] => []
  | c :: cs => if plainStops inFlow c (cs.headD nul) then [] else c :: plainRun inFlow cs

/-- Line ends and spaces after a first line end.  Says also whether a document separator ended
them. -/
def plainBreaks : Nat → Cursor → List Char → Bool × List Char × Cursor
  | 0, c, breaks => (false, breaks, c)
  | fuel + 1, c, breaks =>
    if c.peek == ' ' then plainBreaks fuel c.next breaks
    else if isBreak c.peek then
      let (b, d) := c.lineBreak
      if d.atSeparator then (true, breaks ++ b, d) else plainBreaks fuel d (breaks ++ b)
    else (false, breaks, c)

/-- What separates two pieces of a plain scalar: its text, empty when the scalar cannot go on;
whether a line ended; and the place after it. -/
structure PlainGap where
  text : List Char
  lineEnded : Bool
  cursor : Cursor

def plainGap (c : Cursor) : PlainGap :=
  let (blanks, d) := c.span (· == ' ')
  if isBreak d.peek then
    let (b, e) := d.lineBreak
    if e.atSeparator then ⟨[], true, e⟩
    else
      let (separated, breaks, f) := plainBreaks (e.rest.length + 1) e []
      if separated then ⟨[], true, f⟩
      else ⟨(if b ≠ ['\n'] then b else if breaks.isEmpty then [' '] else []) ++ breaks, true, f⟩
  else ⟨blanks, false, d⟩

/-- A plain scalar read: its text, the mark after its last character, whether a line ended after
it, and the place after that. -/
structure PlainScalar where
  text : List Char
  stop : Mark
  lineEnded : Bool
  cursor : Cursor

def plainLoop (inFlow : Bool) (indent : Int) : Nat → PlainScalar → List Char → PlainScalar
  | 0, s, _ => s
  | fuel + 1, s, gap =>
    let c := s.cursor
    if c.peek == '#' then s
    else
      let run := plainRun inFlow c.rest
      if run.isEmpty then s
      else
        let d := c.skip run.length
        let g := plainGap d
        let s := ⟨s.text ++ gap ++ run, d.mark, g.lineEnded, g.cursor⟩
        if g.text.isEmpty || g.cursor.peek == '#' ||
            (!inFlow && decide ((g.cursor.column : Int) < indent)) then s
        else plainLoop inFlow indent fuel s g.text

/-- A plain scalar inside a block of the given indentation. -/
def readPlain (inFlow : Bool) (parent : Int) (c : Cursor) : PlainScalar :=
  plainLoop inFlow (parent + 1) (c.rest.length + 1) ⟨[], c.mark, false, c⟩ []

end Token
end Yaml
end TalkDeck
