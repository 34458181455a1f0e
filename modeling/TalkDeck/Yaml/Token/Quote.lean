import TalkDeck.Text.Percent
import TalkDeck.Yaml.Token

/-
Reading quoted scalars.  Line ends inside the quotes are folded: a single one becomes a space, and
of several the first is dropped.
-/

namespace TalkDeck
namespace Yaml
namespace Token

open Text (Percent.hexValue?)

/-- The character that a backslash and a letter stand for. -/
def escaped? (c : Char) : Option Char :=
  match c with
  | '0' => some (Char.ofNat 0)
  | 'a' => some (Char.ofNat 7)
  | 'b' => some (Char.ofNat 8)
  | 't' => some '\t'
  | '\t' => some '\t'
  | 'n' => some '\n'
  | 'v' => some (Char.ofNat 11)
  | 'f' => some (Char.ofNat 12)
  | 'r' => some '\r'
  | 'e' => some (Char.ofNat 27)
  | ' ' => some ' '
  | '\x22' => some '\x22'
  | '\\' => some '\\'
  | '/' => some '/'
  | 'N' => some (Char.ofNat 0x85)
  | '_' => some (Char.ofNat 0xA0)
  | 'L' => some (Char.ofNat 0x2028)
  | 'P' => some (Char.ofNat 0x2029)
  | _ => none

/-- How many hexadecimal digits follow a letter of a numeric escape. -/
def hexWidth? (c : Char) : Option Nat :=
  match c with
  | 'x' => some 2
  | 'u' => some 4
  | 'U' => some 8
  | _ => none

/-- The character of a code point.  A surrogate is no character and is replaced. -/
def ofCodePoint (n : Nat) : Except Fault Char :=
  if n < 0x110000 then
    .ok (if 0xD800 ≤ n ∧ n ≤ 0xDFFF then Char.ofNat 0xFFFD else Char.ofNat n)
  else if n < 0x80000000 then .error (.unmarked .codePoint)
  else .error (.abort .hugeCodePoint)

def readHex (width : Nat) (c : Cursor) : Except Fault (Char × Cursor) :=
  match (List.range width).find? fun k => (Percent.hexValue? (c.peekAt k)).isNone with
  | some k => fail (.expectedHex width (c.peekAt k)) c
  | none => do
    let n := (c.rest.take width).foldl (fun n ch => 16 * n + (Percent.hexValue? ch).getD 0) 0
    return (← ofCodePoint n, c.skip width)

/-- The line ends that follow a first one inside quotes. -/
def quoteBreaks : Nat → Cursor → List Char → Except Fault (List Char × Cursor)
  | 0, c, breaks => .ok (breaks, c)
  | fuel + 1, c, breaks =>
    if c.atSeparator then fail .separatorInQuote c
    else
      let d := c.dropWhile fun ch => ch == ' ' || ch == '\t'
      if isBreak d.peek then
        let (b, e) := d.lineBreak
        quoteBreaks fuel e (breaks ++ b)
      else .ok (breaks, d)

/-- Blanks and line ends inside quotes. -/
def quoteSpaces (c : Cursor) : Except Fault (List Char × Cursor) :=
  let (blanks, d) := c.span fun ch => ch == ' ' || ch == '\t'
  if d.peek == nul then fail .unclosedQuote d
  else if isBreak d.peek then do
    let (b, e) := d.lineBreak
    let (breaks, f) ← quoteBreaks (e.rest.length + 1) e []
    return ((if b ≠ ['\n'] then b else if breaks.isEmpty then [' '] else []) ++ breaks, f)
  else .ok (blanks, d)

def isQuoteText (c : Char) : Bool := !(c == '\x27' || c == '\x22' || c == '\\' || isWideGap c)

/-- Text and escapes inside quotes, up to a blank, a line end or the closing quote. -/
def quoteText (double : Bool) : Nat → Cursor → List Char → Except Fault (List Char × Cursor)
  | 0, c, text => .ok (text, c)
  | fuel + 1, c, text =>
    let (run, d) := c.span isQuoteText
    let text := text ++ run
    let ch := d.peek
    if !double && ch == '\x27' && d.peekAt 1 == '\x27' then
      quoteText double fuel (d.skip 2) (text ++ ['\x27'])
    else if (double && ch == '\x27') || (!double && (ch == '\x22' || ch == '\\')) then
      quoteText double fuel d.next (text ++ [ch])
    else if double && ch == '\\' then
      let e := d.next
      match escaped? e.peek with
      | some x => quoteText double fuel e.next (text ++ [x])
      | none =>
        match hexWidth? e.peek with
        | some width => do
          let (x, f) ← readHex width e.next
          quoteText double fuel f (text ++ [x])
        | none =>
          if isBreak e.peek then do
            let f := e.lineBreak.2
            let (breaks, g) ← quoteBreaks (f.rest.length + 1) f []
            quoteText double fuel g (text ++ breaks)
          else fail (.unknownEscape e.peek) e
    else .ok (text, d)

def quoteLoop (double : Bool) : Nat → Cursor → List Char → Except Fault (List Char × Cursor)
  | 0, c, text => .ok (text, c)
  | fuel + 1, c, text => do
    let (text, d) ← quoteText double (c.rest.length + 1) c text
    if d.peek == (if double then '\x22' else '\x27') then return (text, d.next)
    let (spaces, e) ← quoteSpaces d
    quoteLoop double fuel e (text ++ spaces)

/-- A quoted scalar, from its opening quote. -/
def readQuoted (double : Bool) (c : Cursor) : Except Fault (List Char × Cursor) :=
  quoteLoop double (c.rest.length + 1) c.next []

end Token
end Yaml
end TalkDeck
