import TalkDeck.Text.Utf8
import TalkDeck.Text.Quoted

/-
Percent-encoding.  A percent sign with two hexadecimal digits after it stands for an octet, and the
octets are read as UTF-8; any other percent sign stands for itself.
-/

namespace TalkDeck
namespace Text
namespace Percent

def hexValue? (c : Char) : Option Nat :=
  if '0' ≤ c ∧ c ≤ '9' then some (c.toNat - 48)
  else if 'a' ≤ c ∧ c ≤ 'f' then some (c.toNat - 87)
  else if 'A' ≤ c ∧ c ≤ 'F' then some (c.toNat - 55)
  else none

def octets : List Char → List UInt8
  | '%' :: a :: b :: cs =>
    match hexValue? a, hexValue? b with
    | some x, some y => UInt8.ofNat (16 * x + y) :: octets cs
    | _, _ => 0x25 :: octets (a :: b :: cs)
  | c :: cs => String.utf8EncodeChar c ++ octets cs
  | [] => []

def decode (cs : List Char) : List Char := Utf8.decodeLossy (octets cs)

/-- The characters that every percent-encoded text keeps as they are. -/
def isUnreserved (c : Char) : Bool := c.isAlphanum || ['.', '_', '~', '-'].contains c

def upperHex (n : Nat) : Char := Char.ofNat (if n < 10 then 48 + n else 55 + n)

def encodeOctet (b : UInt8) : List Char :=
  ['%', upperHex (b.toNat / 16), upperHex (b.toNat % 16)]

/-- Every character outside `keep` as its percent-encoded octets. -/
def encode (keep : Char → Bool) (cs : List Char) : List Char :=
  cs.flatMap fun c => if keep c then [c] else (String.utf8EncodeChar c).flatMap encodeOctet

end Percent
end Text
end TalkDeck
