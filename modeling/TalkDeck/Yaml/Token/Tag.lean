import TalkDeck.Number.Numeral
import TalkDeck.Text.Percent
import TalkDeck.Yaml.Token

/-
Reading names, tags and directives.
-/

namespace TalkDeck
namespace Yaml
namespace Token

open Text (Percent.hexValue?)

/-- A name, with a character after it that can follow one. -/
def readName (follows : Char → Bool) (c : Cursor) : Except Fault (String × Cursor) :=
  let (name, d) := c.span isNameChar
  if name.isEmpty then fail (.expectedName c.peek) c
  else if follows d.peek then .ok (String.ofList name, d)
  else fail (.expectedName d.peek) d

/-- The name after an anchor's or alias's sign. -/
def readAnchor (c : Cursor) : Except Fault (String × Cursor) :=
  readName (fun ch => isWideGap ch || ['?', ':', ',', ']', '}', '%', '@', Char.ofNat 0x60].contains ch)
    c.next

def isUriChar (c : Char) : Bool :=
  c.isAlphanum ||
    ['-', ';', '/', '?', ':', '@', '&', '=', '+', '$', ',', '_', '.', '!', '~', '*', '\x27', '(', ')',
      '[', ']', '%'].contains c

/-- A run of percent escapes as octets. -/
def readEscapes : Nat → Cursor → List UInt8 → Except Fault (List UInt8 × Cursor)
  | 0, c, octets => .ok (octets, c)
  | fuel + 1, c, octets =>
    if c.peek == '%' then
      let d := c.next
      match Percent.hexValue? d.peek, Percent.hexValue? (d.peekAt 1) with
      | none, _ => fail (.expectedUriEscape d.peek) d
      | some _, none => fail (.expectedUriEscape (d.peekAt 1)) d
      | some x, some y => readEscapes fuel (d.skip 2) (octets ++ [UInt8.ofNat (16 * x + y)])
    else .ok (octets, c)

def uriLoop : Nat → Cursor → List Char → Except Fault (List Char × Cursor)
  | 0, c, text => .ok (text, c)
  | fuel + 1, c, text =>
    let (run, d) := c.span fun ch => isUriChar ch && ch != '%'
    let text := text ++ run
    if d.peek == '%' then do
      let (octets, e) ← readEscapes (d.rest.length + 1) d []
      match Text.Utf8.decode octets with
      | .ok cs => uriLoop fuel e (text ++ cs)
      | .error f => fail (.uriNotUtf8 f) d
    else .ok (text, d)

/-- A tag's text, percent escapes resolved.  There must be some. -/
def readUri (c : Cursor) : Except Fault (String × Cursor) :=
  if isUriChar c.peek then do
    let (text, d) ← uriLoop (c.rest.length + 1) c []
    return (String.ofList text, d)
  else fail (.expectedUri c.peek) c

/-- A handle: one exclamation mark, or a name between two. -/
def readHandle (c : Cursor) : Except Fault (String × Cursor) :=
  if c.peek != '!' then fail (.expectedBang c.peek) c
  else if c.peekAt 1 == ' ' then .ok ("!", c.next)
  else
    let (name, d) := c.next.span isNameChar
    if d.peek == '!' then .ok (String.ofList (['!'] ++ name ++ ['!']), d.next)
    else fail (.expectedBang d.peek) d

/-- Whether another exclamation mark comes before the next gap. -/
def hasHandle : List Char → Bool
  | [] => false
  | c :: cs => if isGap c then false else c == '!' || hasHandle cs

def readTag (c : Cursor) : Except Fault (RawTag × Cursor) := do
  let (tag, d) ← show Except Fault (RawTag × Cursor) from do
    if c.peekAt 1 == '<' then
      let (suffix, d) ← readUri (c.skip 2)
      if d.peek == '>' then return (⟨none, suffix⟩, d.next)
      fail (.expectedClose d.peek) d
    else if isWideGap (c.peekAt 1) then return (⟨none, "!"⟩, c.next)
    else if hasHandle (c.rest.drop 1) then
      let (handle, d) ← readHandle c
      let (suffix, e) ← readUri d
      return (⟨some handle, suffix⟩, e)
    else
      let (suffix, e) ← readUri c.next
      return (⟨some "!", suffix⟩, e)
  if isGap d.peek then return (tag, d)
  fail (.expectedSpace d.peek) d

/-- The rest of a line on which only a comment may stand. -/
def readLineEnd (c : Cursor) : Except Fault Cursor :=
  let d := c.dropSpaces.dropComment
  if isBreakOrEnd d.peek then .ok d.lineBreak.2 else fail (.expectedLineEnd d.peek) d

/-- A number of a version.  All its digits count towards the most that are read. -/
def readNumber (c : Cursor) : Except Fault (Nat × Cursor) :=
  let (ds, d) := c.span Char.isDigit
  if ds.isEmpty then fail (.expectedDigit c.peek) c
  else if Numeral.maxDigits < ds.length then .error (.unmarked (.integerTooLong ds.length))
  else .ok (ds.foldl (fun n ch => 10 * n + (ch.toNat - 48)) 0, d)

def readVersion (c : Cursor) : Except Fault (Directive × Cursor) := do
  let (major, d) ← readNumber c.dropSpaces
  if d.peek != '.' then fail (.expectedDigitOrDot d.peek) d
  else
    let (minor, e) ← readNumber d.next
    if isGap e.peek then return (.version major minor, e)
    fail (.expectedDigitOrSpace e.peek) e

def readTagDirective (c : Cursor) : Except Fault (Directive × Cursor) := do
  let (handle, d) ← readHandle c.dropSpaces
  if d.peek != ' ' then fail (.expectedSpace d.peek) d
  else
    let (lead, e) ← readUri d.dropSpaces
    if isGap e.peek then return (.tag handle lead, e)
    fail (.expectedSpace e.peek) e

/-- A directive with its line; the mark is the end of the directive proper. -/
def readDirective (c : Cursor) : Except Fault (Directive × Mark × Cursor) := do
  let (name, d) ← readName isGap c.next
  let (directive, e) ←
    if name = "YAML" then readVersion d
    else if name = "TAG" then readTagDirective d
    else pure (.other, d)
  let f := if name = "YAML" || name = "TAG" then e else e.dropWhile (!isBreakOrEnd ·)
  let g ← readLineEnd f
  return (directive, e.mark, g)

end Token
end Yaml
end TalkDeck
