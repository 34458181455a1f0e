import TalkDeck.Text.Printable

/-
Quoted text: the form in which a message shows a text it talks about.  Single quotes are used
unless the text holds some and no double ones; the quote in use, the backslash and whatever cannot
be printed are escaped.
-/

namespace TalkDeck
namespace Text

def hexDigit (n : Nat) : Char := Char.ofNat (if n < 10 then 48 + n else 87 + n)

/-- The last `width` hexadecimal digits of a number, in small letters. -/
def hex (width n : Nat) : List Char :=
  match width with
  | 0 => []
  | w + 1 => hex w (n / 16) ++ [hexDigit (n % 16)]

namespace Quoted

/-- The quote character for a text. -/
def mark (cs : List Char) : Char :=
  if cs.contains '\x27' && !cs.contains '\x22' then '\x22' else '\x27'

def escape (quote c : Char) : List Char :=
  let n := c.toNat
  if c = quote ∨ c = '\\' then ['\\', c]
  else if c = '\n' then ['\\', 'n']
  else if c = '\r' then ['\\', 'r']
  else if c = '\t' then ['\\', 't']
  else if isPrintable c then [c]
  else if n < 0x100 then ['\\', 'x'] ++ hex 2 n
  else if n < 0x10000 then ['\\', 'u'] ++ hex 4 n
  else ['\\', 'U'] ++ hex 8 n

def render (cs : List Char) : List Char :=
  let q := mark cs
  q :: (cs.flatMap (escape q) ++ [q])

/-- One octet of quoted binary data. -/
def escapeOctet (quote : Char) (b : UInt8) : List Char :=
  let n := b.toNat
  let c := Char.ofNat n
  if n < 128 then
    if c = '\n' ∨ c = '\r' ∨ c = '\t' ∨ c = quote ∨ c = '\\' ∨ isPrintable c then escape quote c
    else ['\\', 'x'] ++ hex 2 n
  else ['\\', 'x'] ++ hex 2 n

def renderOctets (bs : List UInt8) : List Char :=
  let q := mark (bs.map fun b => Char.ofNat b.toNat)
  'b' :: q :: (bs.flatMap (escapeOctet q) ++ [q])

end Quoted

/-- A text as messages show it. -/
def quoted (s : String) : String := String.ofList (Quoted.render s.toList)

def quotedChar (c : Char) : String := String.ofList (Quoted.render [c])

end Text
end TalkDeck
