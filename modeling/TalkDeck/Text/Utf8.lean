import TalkDeck.Text.Quoted

/-
UTF-8.  Octets are read one at a time; while a character is open the reader knows how many octets
are owed and between which bounds the next one lies.  An octet out of bounds ends the open
character as a fault and is then read afresh, so every fault covers the longest stretch that could
still have become a character.
-/

namespace TalkDeck
namespace Text
namespace Utf8

/-- Why a stretch of octets is no character. -/
inductive Reason where
  | badStart
  | badContinuation
  | cutShort
deriving DecidableEq, Repr

def Reason.message : Reason → String
  | .badStart => "invalid start byte"
  | .badContinuation => "invalid continuation byte"
  | .cutShort => "unexpected end of data"

/-- A stretch of `count` octets from offset `first`, opening with `octet`, that is no character. -/
structure Fault where
  first : Nat
  count : Nat
  octet : UInt8
  reason : Reason
deriving DecidableEq, Repr

def Fault.message (f : Fault) : String :=
  let what :=
    if f.count ≤ 1 then
      "byte 0x" ++ String.ofList (hex 2 f.octet.toNat) ++ " in position " ++ toString f.first
    else
      "bytes in position " ++ toString f.first ++ "-" ++ toString (f.first + f.count - 1)
  "'utf-8' codec can't decode " ++ what ++ ": " ++ f.reason.message

/-- A character begun: where and with which octet, the octets read and still owed, the bounds of
the next one, and the bits so far. -/
structure Open where
  first : Nat
  octet : UInt8
  taken : Nat
  owed : Nat
  least : Nat
  most : Nat
  bits : Nat
deriving DecidableEq, Repr

def Open.fault (o : Open) (reason : Reason) : Fault := ⟨o.first, o.taken, o.octet, reason⟩

/-- What the first octet of a character leads to. -/
inductive Lead where
  | char (c : Char)
  | opens (o : Open)
  | none

def lead (at_ : Nat) (b : UInt8) : Lead :=
  let n := b.toNat
  if n < 0x80 then .char (Char.ofNat n)
  else if 0xC2 ≤ n ∧ n ≤ 0xDF then .opens ⟨at_, b, 1, 1, 0x80, 0xBF, n - 0xC0⟩
  else if n = 0xE0 then .opens ⟨at_, b, 1, 2, 0xA0, 0xBF, 0⟩
  else if n = 0xED then .opens ⟨at_, b, 1, 2, 0x80, 0x9F, n - 0xE0⟩
  else if 0xE1 ≤ n ∧ n ≤ 0xEF then .opens ⟨at_, b, 1, 2, 0x80, 0xBF, n - 0xE0⟩
  else if n = 0xF0 then .opens ⟨at_, b, 1, 3, 0x90, 0xBF, 0⟩
  else if 0xF1 ≤ n ∧ n ≤ 0xF3 then .opens ⟨at_, b, 1, 3, 0x80, 0xBF, n - 0xF0⟩
  else if n = 0xF4 then .opens ⟨at_, b, 1, 3, 0x80, 0x8F, n - 0xF0⟩
  else .none

/-- The characters and faults of a sequence of octets, in order, starting at offset `at_` with
perhaps a character open. -/
def scan : Nat → Option Open → List UInt8 → List (Except Fault Char)
  | _, none, [] => []
  | _, some o, [] => [.error (o.fault .cutShort)]
  | at_, none, b :: bs =>
    match lead at_ b with
    | .char c => .ok c :: scan (at_ + 1) none bs
    | .opens o => scan (at_ + 1) (some o) bs
    | .none => .error ⟨at_, 1, b, .badStart⟩ :: scan (at_ + 1) none bs
  | at_, some o, b :: bs =>
    let n := b.toNat
    if o.least ≤ n ∧ n ≤ o.most then
      let bits := o.bits * 64 + (n - 0x80)
      if o.owed ≤ 1 then .ok (Char.ofNat bits) :: scan (at_ + 1) none bs
      else
        scan (at_ + 1)
          (some { o with taken := o.taken + 1, owed := o.owed - 1, least := 0x80, most := 0xBF, bits })
          bs
    else
      .error (o.fault .badContinuation) ::
        match lead at_ b with
        | .char c => .ok c :: scan (at_ + 1) none bs
        | .opens o => scan (at_ + 1) (some o) bs
        | .none => .error ⟨at_, 1, b, .badStart⟩ :: scan (at_ + 1) none bs

/-- The text of a sequence of octets, or its first fault. -/
def decode (bs : List UInt8) : Except Fault (List Char) := (scan 0 none bs).mapM id

/-- The text of a sequence of octets with the replacement character for each fault. -/
def decodeLossy (bs : List UInt8) : List Char :=
  (scan 0 none bs).map fun
    | .ok c => c
    | .error _ => Char.ofNat 0xFFFD

def encode (cs : List Char) : List UInt8 := cs.flatMap String.utf8EncodeChar

end Utf8
end Text
end TalkDeck
