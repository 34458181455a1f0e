import TalkDeck.Number.Numeral

/-
Numbers and truth values as people write them in settings: blanks around them, a plus sign, leading
zeros, underscores between digits, and decimals that are all zero.  Only ASCII digits count.
-/

namespace TalkDeck
namespace Lenient

/-- White space around a number; the information separators are none. -/
def isSpace (c : Char) : Bool := Text.isBlank c && !decide (28 ≤ c.toNat ∧ c.toNat ≤ 31)

def trim (cs : List Char) : List Char :=
  ((cs.dropWhile isSpace).reverse.dropWhile isSpace).reverse

inductive IntFault where
  | malformed
  | tooLong
deriving DecidableEq, Repr

/-- Digits without a needless leading zero. -/
def isPlain : List Char → Bool
  | [] => false
  | ['0'] => true
  | c :: cs => c.isDigit && c != '0' && cs.all Char.isDigit

def magnitude (cs : List Char) : Nat := Numeral.ofDigits 10 (cs.map fun c => c.toNat - 48)

/-- A minus sign at most, and plain digits.  Sign and digits together are counted before what
follows them is looked at. -/
def plainInt? (cs : List Char) : Except IntFault Int :=
  let (negative, body) :=
    match cs with
    | '-' :: body => (true, body)
    | body => (false, body)
  let run := body.takeWhile Char.isDigit
  if !isPlain run then .error .malformed
  else if Numeral.maxDigits < run.length + negative.toNat then .error .tooLong
  else if run.length < body.length then .error .malformed
  else .ok (if negative then -(magnitude run : Int) else magnitude run)

/-- The text after a plus sign. -/
def dropPlus? : List Char → Option (List Char)
  | '+' :: '-' :: _ => none
  | '+' :: cs => some cs
  | cs => some cs

/-- What follows leading zeros and the underscores among them, the last of which was `last`.  One of
them stays in front of a point or of the end. -/
def afterZeros? (last : Char) : List Char → Option (List Char)
  | [] => some [last]
  | c :: cs =>
    if c = '0' ∨ c = '_' then afterZeros? c cs
    else if c = '.' then some (last :: c :: cs)
    else if ('1' ≤ c ∧ c ≤ '9') ∨ c = '-' then some (c :: cs)
    else none

def dropZeros? : List Char → Option (List Char)
  | [] => none
  | '0' :: cs => afterZeros? '0' cs
  | c :: cs => if ('1' ≤ c ∧ c ≤ '9') ∨ c = '-' then some (c :: cs) else none

/-- A number without its leading zeros, which a minus sign may stand before. -/
def dropSignedZeros? : List Char → Option (List Char)
  | '-' :: cs => (dropZeros? cs).map ('-' :: ·)
  | cs => dropZeros? cs

/-- The text before a point that only zeros follow. -/
def dropDecimals (cs : List Char) : List Char :=
  match cs.dropWhile (· != '.') with
  | _ :: zeros => if !zeros.isEmpty && zeros.all (· == '0') then cs.takeWhile (· != '.') else cs
  | [] => cs

def doubled : List Char → Bool
  | '_' :: '_' :: _ => true
  | _ :: cs => doubled cs
  | [] => false

/-- The text without its underscores, if each stands alone inside. -/
def dropUnderscores (cs : List Char) : List Char :=
  if cs.head? = some '_' ∨ cs.getLast? = some '_' ∨ doubled cs then cs else cs.filter (· != '_')

/-- An integer. -/
def int? (cs : List Char) : Except IntFault Int :=
  match plainInt? cs with
  | .ok i => .ok i
  | .error .tooLong => .error .tooLong
  | .error .malformed =>
    match ((dropPlus? (trim cs)).bind dropSignedZeros?).map fun s =>
        dropUnderscores (dropDecimals s) with
    | some s => (plainInt? s).mapError fun _ => .malformed
    | none => .error .malformed

def isAscii (cs : List Char) : Bool := cs.all (decide <| ·.toNat < 128)

/-- A decimal number without underscores. -/
def plainFloat? (cs : List Char) : Option Binary64 :=
  if isAscii cs && !cs.any fun c => c == '_' || Text.isBlank c then Numeral.float? cs else none

/-- A decimal number.  Blanks and underscores are not taken together. -/
def float? (cs : List Char) : Option Binary64 :=
  match plainFloat? (trim cs) with
  | some x => some x
  | none => plainFloat? (dropUnderscores cs)

/-- A truth value by one of its names, whatever the case. -/
def bool? (cs : List Char) : Option Bool :=
  let w := String.ofList (cs.map Char.toLower)
  if ["1", "t", "y", "on", "yes", "true"].contains w then some true
  else if ["0", "f", "n", "off", "no", "false"].contains w then some false
  else none

end Lenient
end TalkDeck
