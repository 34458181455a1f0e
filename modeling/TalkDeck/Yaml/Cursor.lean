/-
A place in a markup text: what is still to be read, and where that stands.  The text is taken to
end in NUL, which no legal text holds, so looking ahead needs no case for the end.
-/

namespace TalkDeck
namespace Yaml

/-- Where a character stands: its number, its line and its column, all from zero. -/
structure Mark where
  index : Nat
  line : Nat
  column : Nat
deriving DecidableEq, Repr, Inhabited

def nul : Char := Char.ofNat 0

/-- Line ends: carriage return, line feed, next line, line separator, paragraph separator. -/
def isBreak (c : Char) : Bool :=
  c == '\r' || c == '\n' || c.toNat == 0x85 || c.toNat == 0x2028 || c.toNat == 0x2029

def isBreakOrEnd (c : Char) : Bool := isBreak c || c == nul

/-- A space, a line end or the end. -/
def isGap (c : Char) : Bool := c == ' ' || isBreakOrEnd c

/-- A space, a tab, a line end or the end. -/
def isWideGap (c : Char) : Bool := c == '\t' || isGap c

/-- What names of anchors, directives and tag handles are made of. -/
def isNameChar (c : Char) : Bool := c.isAlphanum || c == '-' || c == '_'

structure Cursor where
  rest : List Char
  mark : Mark
deriving DecidableEq, Repr, Inhabited

namespace Cursor

def ofText (cs : List Char) : Cursor := ⟨cs, ⟨0, 0, 0⟩⟩

def peek (c : Cursor) : Char := c.rest.headD nul

def peekAt (c : Cursor) (n : Nat) : Char := c.rest.getD n nul

def column (c : Cursor) : Nat := c.mark.column

/-- The mark after reading `ch`, with `next` to follow.  A carriage return before a line feed ends
no line of its own, and a byte order mark takes no column. -/
def moved (m : Mark) (ch next : Char) : Mark :=
  if ch == '\r' && next == '\n' then ⟨m.index + 1, m.line, m.column + 1⟩
  else if isBreak ch then ⟨m.index + 1, m.line + 1, 0⟩
  else if ch.toNat == 0xFEFF then ⟨m.index + 1, m.line, m.column⟩
  else ⟨m.index + 1, m.line, m.column + 1⟩

def next (c : Cursor) : Cursor :=
  match c.rest with
  | [] => c
  | ch :: rest => ⟨rest, moved c.mark ch (rest.headD nul)⟩

def skip : Nat → Cursor → Cursor
  | 0, c => c
  | n + 1, c => skip n c.next

/-- The longest run of characters of a class, and the place after it. -/
def span (c : Cursor) (p : Char → Bool) : List Char × Cursor :=
  let run := c.rest.takeWhile p
  (run, c.skip run.length)

def dropWhile (c : Cursor) (p : Char → Bool) : Cursor := (c.span p).2

def dropSpaces (c : Cursor) : Cursor := c.dropWhile (· == ' ')

/-- Past a comment, if one stands here. -/
def dropComment (c : Cursor) : Cursor :=
  if c.peek == '#' then c.dropWhile (!isBreakOrEnd ·) else c

/-- Reads one line end: a line feed stands for all of them but the two separators, and nothing for
none. -/
def lineBreak (c : Cursor) : List Char × Cursor :=
  let ch := c.peek
  if ch == '\r' || ch == '\n' || ch.toNat == 0x85 then
    (['\n'], if ch == '\r' && c.peekAt 1 == '\n' then c.skip 2 else c.next)
  else if isBreak ch then ([ch], c.next)
  else ([], c)

/-- Whether three dashes or three dots with a gap after them stand here. -/
def atSeparator (c : Cursor) : Bool :=
  (c.rest.take 3 == ['-', '-', '-'] || c.rest.take 3 == ['.', '.', '.']) && isWideGap (c.peekAt 3)

end Cursor
end Yaml
end TalkDeck
