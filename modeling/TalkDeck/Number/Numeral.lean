import TalkDeck.Number.Binary64
import TalkDeck.Text.Blank
import TalkDeck.Text.Digit

/-
Reading numerals: integers in a base and decimal numbers, with blanks around them, a sign, digits
of any script, and single underscores between digits.
-/

namespace TalkDeck
namespace Numeral

/-- The ASCII form of a character of a numeral: white space of other scripts is a space, and a digit
of another script is the digit of its value. -/
def ascii (c : Char) : Char :=
  if c.toNat < 127 then c
  else if Text.isBlank c then ' '
  else
    match Text.digitValue? c with
    | some v => Char.ofNat (48 + v)
    | none => c

/-- White space around a numeral in ASCII form; the information separators are none. -/
def isSpace (c : Char) : Bool := c == ' ' || decide (9 ≤ c.toNat ∧ c.toNat ≤ 13)

/-- A numeral in ASCII form, without the white space before it. -/
def start (cs : List Char) : List Char := (cs.map ascii).dropWhile isSpace

/-- The value of a digit or letter as a digit, whatever the base. -/
def digit? (c : Char) : Option Nat :=
  if '0' ≤ c ∧ c ≤ '9' then some (c.toNat - 48)
  else if 'a' ≤ c ∧ c ≤ 'z' then some (c.toNat - 87)
  else if 'A' ≤ c ∧ c ≤ 'Z' then some (c.toNat - 55)
  else none

/-- The digits at the front, in which every underscore stands between two digits, and what follows
them.  `after` says whether a digit came just before. -/
def digits? (base : Nat) : Bool → List Char → Option (List Nat × List Char)
  | after, [] => if after then some ([], []) else none
  | after, '_' :: cs => if after then digits? base false cs else none
  | after, c :: cs =>
    match (digit? c).filter (· < base) with
    | some v => (digits? base true cs).map fun (vs, rest) => (v :: vs, rest)
    | none => if after then some ([], c :: cs) else none

def ofDigits (base : Nat) (ds : List Nat) : Nat := ds.foldl (fun n d => n * base + d) 0

/-- A sign, and what follows it. -/
def sign : List Char → Bool × List Char
  | '-' :: cs => (true, cs)
  | '+' :: cs => (false, cs)
  | cs => (false, cs)

/-- The letter that marks a base after a leading zero. -/
def baseMark (base : Nat) : List Char :=
  if base = 16 then ['x', 'X'] else if base = 8 then ['o', 'O'] else if base = 2 then ['b', 'B'] else []

/-- A text without the mark of its base. -/
def dropMark (base : Nat) : List Char → List Char
  | '0' :: m :: '_' :: cs => if (baseMark base).contains m then cs else '0' :: m :: '_' :: cs
  | '0' :: m :: cs => if (baseMark base).contains m then cs else '0' :: m :: cs
  | cs => cs

/-- The most decimal digits an integer is read from. -/
def maxDigits : Nat := 4300

inductive IntFault where
  | malformed
  | tooLong (digits : Nat)
deriving DecidableEq, Repr

/-- An integer in a base.  Decimal digits are counted before what follows them is looked at. -/
def int? (base : Nat) (cs : List Char) : Except IntFault Int :=
  let (negative, body) := sign (start cs)
  match digits? base false (dropMark base body) with
  | none => .error .malformed
  | some (ds, rest) =>
    if base = 10 ∧ maxDigits < ds.length then .error (.tooLong ds.length)
    else if rest.all isSpace then
      let n : Int := ofDigits base ds
      .ok (if negative then -n else n)
    else .error .malformed

/-- Digits from the front, underscores between digits allowed, and what follows. -/
def digitRun : Bool → List Char → List Nat × List Char
  | after, '_' :: c :: cs =>
    if after && c.isDigit then digitRun false (c :: cs) else ([], '_' :: c :: cs)
  | _, c :: cs =>
    if c.isDigit then
      let (ds, rest) := digitRun true cs
      ((c.toNat - 48) :: ds, rest)
    else ([], c :: cs)
  | _, [] => ([], [])

def special? (cs : List Char) : Option (Bool → Binary64) :=
  let w := cs.map Char.toLower
  if w = ['i', 'n', 'f'] ∨ w = ['i', 'n', 'f', 'i', 'n', 'i', 't', 'y'] then some Binary64.infinite
  else if w = ['n', 'a', 'n'] then some fun _ => .nan
  else none

/-- The exponent at the end of a decimal number. -/
def exponent? : List Char → Option Int
  | [] => some 0
  | e :: cs =>
    if e = 'e' ∨ e = 'E' then
      let (negative, body) := sign cs
      match digitRun false body with
      | (d :: ds, []) =>
        let n : Int := ofDigits 10 (d :: ds)
        some (if negative then -n else n)
      | _ => none
    else none

/-- A decimal number. -/
def float? (cs : List Char) : Option Binary64 :=
  let (negative, body) := sign ((start cs).reverse.dropWhile isSpace).reverse
  match special? body with
  | some f => some (f negative)
  | none =>
    let (whole, rest) := digitRun false body
    let (part, rest) :=
      match rest with
      | '.' :: rest => digitRun false rest
      | rest => ([], rest)
    if whole.isEmpty && part.isEmpty then none
    else
      (exponent? rest).map fun e =>
        Binary64.ofDecimal negative (ofDigits 10 (whole ++ part)) (e - part.length)

end Numeral
end TalkDeck
