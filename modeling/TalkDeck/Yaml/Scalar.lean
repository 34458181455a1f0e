import TalkDeck.Number.Shortest
import TalkDeck.Number.Numeral
import TalkDeck.Text.Case
import TalkDeck.Text.Split
import TalkDeck.Yaml.Fault

/-
Scalar values: which kind of value a plain text stands for, and how a text of a given kind is read.
-/

namespace TalkDeck
namespace Yaml

structure Date where
  year : Nat
  month : Nat
  day : Nat
deriving DecidableEq, Repr

/-- A date and a time of day; `offset` is the minutes east of universal time, if a zone is given. -/
structure DateTime where
  date : Date
  hour : Nat
  minute : Nat
  second : Nat
  microsecond : Nat
  offset : Option Int
deriving DecidableEq, Repr

inductive Scalar where
  | null
  | bool (b : Bool)
  | int (i : Int)
  | float (x : Binary64)
  | str (s : String)
  | bytes (bs : List UInt8)
  | date (d : Date)
  | dateTime (t : DateTime)
deriving DecidableEq, Repr

namespace Tag

def lead : String := "tag:yaml.org,2002:"

def null : String := lead ++ "null"
def bool : String := lead ++ "bool"
def int : String := lead ++ "int"
def float : String := lead ++ "float"
def binary : String := lead ++ "binary"
def timestamp : String := lead ++ "timestamp"
def omap : String := lead ++ "omap"
def pairs : String := lead ++ "pairs"
def set : String := lead ++ "set"
def str : String := lead ++ "str"
def seq : String := lead ++ "seq"
def map : String := lead ++ "map"
def merge : String := lead ++ "merge"
def value : String := lead ++ "value"
def sign : String := lead ++ "yaml"

end Tag

namespace Scalar

/-- Drops one line feed at the end: a form is recognised with or without it. -/
def dropFinalBreak (cs : List Char) : List Char :=
  if cs.getLast? = some '\n' then cs.dropLast else cs

def truthWords : List String :=
  ["yes", "Yes", "YES", "no", "No", "NO", "true", "True", "TRUE", "false", "False", "FALSE",
    "on", "On", "ON", "off", "Off", "OFF"]

def isTruth (cs : List Char) : Bool := truthWords.any (·.toList == cs)

def isNull (cs : List Char) : Bool := ["", "~", "null", "Null", "NULL"].any (·.toList == cs)

def unsigned : List Char → List Char
  | '-' :: cs => cs
  | '+' :: cs => cs
  | cs => cs

def digitOr (c : Char) : Bool := c.isDigit || c == '_'

/-- One or more parts `:` and a number below sixty, to the end. -/
def isSixties (cs : List Char) : Bool :=
  match Text.splitAt ':' cs with
  | [] :: parts =>
    !parts.isEmpty && parts.all fun
      | [a] => a.isDigit
      | [a, b] => decide ('0' ≤ a ∧ a ≤ '5') && b.isDigit
      | _ => false
  | _ => false

/-- `[1-9]` and then digits and underscores; yields the rest. -/
def numberLead? (zero : Bool) : List Char → Option (List Char)
  | c :: cs => if c.isDigit && (zero || c != '0') then some (cs.dropWhile digitOr) else none
  | [] => none

def isInt (cs : List Char) : Bool :=
  match unsigned cs with
  | '0' :: 'b' :: c :: cs => (c :: cs).all fun ch => ch == '0' || ch == '1' || ch == '_'
  | '0' :: 'x' :: c :: cs => (c :: cs).all fun ch => (Numeral.digit? ch).any (· < 16) || ch == '_'
  | ['0'] => true
  | '0' :: cs => cs.all fun ch => decide ('0' ≤ ch ∧ ch ≤ '7') || ch == '_'
  | cs =>
    match numberLead? false cs with
    | some [] => true
    | some rest => isSixties rest
    | none => false

/-- Nothing, or an exponent with a sign. -/
def isExponent : List Char → Bool
  | [] => true
  | e :: s :: d :: ds =>
    (e == 'e' || e == 'E') && (s == '-' || s == '+') && (d :: ds).all Char.isDigit
  | _ => false

/-- Parts `:` and a number below sixty, then a point and digits. -/
def isSixtiesPoint (cs : List Char) : Bool :=
  let whole := cs.takeWhile (· != '.')
  match cs.dropWhile (· != '.') with
  | '.' :: part => isSixties whole && part.all digitOr
  | _ => false

def isFloat (cs : List Char) : Bool :=
  let body := unsigned cs
  (match numberLead? true body with
    | some ('.' :: rest) => isExponent (rest.dropWhile digitOr)
    | some rest => isSixtiesPoint rest
    | none => false) ||
  (match cs with
    | '.' :: c :: rest => c.isDigit && isExponent (rest.dropWhile digitOr)
    | _ => false) ||
  [".inf", ".Inf", ".INF"].any (·.toList == body) ||
  [".nan", ".NaN", ".NAN"].any (·.toList == cs)

/-- The parts of a written timestamp. -/
structure Timestamp where
  year : List Char
  month : List Char
  day : List Char
  time : Option (List Char × List Char × List Char)
  fraction : List Char
  /-- A zone: none, the letter, or a sign with hours and perhaps minutes. -/
  zone : Option (Option (Char × List Char × List Char))
deriving DecidableEq, Repr

/-- From `least` to `most` digits, as many as there are. -/
def digitsUpTo (least most : Nat) (cs : List Char) : Option (List Char × List Char) :=
  let run := (cs.take most).takeWhile Char.isDigit
  if run.length < least then none else some (run, cs.drop run.length)

def expect (c : Char) : List Char → Option (List Char)
  | d :: cs => if c = d then some cs else none
  | [] => none

/-- A zone at the end of a timestamp, and nothing after it. -/
def zone? (cs : List Char) : Option (Option (Option (Char × List Char × List Char))) :=
  match cs.dropWhile fun c => c == ' ' || c == '\t' with
  | [] => if cs.isEmpty then some none else none
  | ['Z'] => some (some none)
  | s :: rest => do
    if s = '-' ∨ s = '+' then
      let (hours, rest) ← digitsUpTo 1 2 rest
      match rest with
      | [] => return some (some (s, hours, []))
      | ':' :: rest =>
        let (minutes, rest) ← digitsUpTo 2 2 rest
        if rest.isEmpty then return some (some (s, hours, minutes)) else none
      | _ => none
    else none

/-- The time of day after a date. -/
def timeOf (cs : List Char) (t : Timestamp) : Option Timestamp := do
  let (hour, cs) ← digitsUpTo 1 2 cs
  let cs ← expect ':' cs
  let (minute, cs) ← digitsUpTo 2 2 cs
  let cs ← expect ':' cs
  let (second, cs) ← digitsUpTo 2 2 cs
  let (fraction, cs) :=
    match cs with
    | '.' :: cs => (cs.takeWhile Char.isDigit, cs.dropWhile Char.isDigit)
    | cs => ([], cs)
  let zone ← zone? cs
  return { t with time := some (hour, minute, second), fraction, zone }

def timestamp? (cs : List Char) : Option Timestamp := do
  let (year, cs) ← digitsUpTo 4 4 cs
  let cs ← expect '-' cs
  let (month, cs) ← digitsUpTo 1 2 cs
  let cs ← expect '-' cs
  let (day, cs) ← digitsUpTo 1 2 cs
  let t : Timestamp := ⟨year, month, day, none, [], none⟩
  match cs with
  | [] => return t
  | c :: rest =>
    if c = 'T' ∨ c = 't' then timeOf rest t
    else if c = ' ' ∨ c = '\t' then timeOf (rest.dropWhile fun c => c == ' ' || c == '\t') t
    else none

/-- A plain text is a timestamp when it has a time of day, or month and day of two digits each. -/
def isTimestamp (cs : List Char) : Bool :=
  match timestamp? cs with
  | some t => t.time.isSome || (t.month.length == 2 && t.day.length == 2)
  | none => false

/-- The tag that a plain text decides on by itself. -/
def tagOf (cs : List Char) : String :=
  let body := dropFinalBreak cs
  if cs.isEmpty then Tag.null
  else if isTruth body then Tag.bool
  else if isFloat body then Tag.float
  else if isInt body then Tag.int
  else if body == ['<', '<'] then Tag.merge
  else if isNull body && !body.isEmpty then Tag.null
  else if isTimestamp body then Tag.timestamp
  else if body == ['='] then Tag.value
  else if body == ['!'] || body == ['&'] || body == ['*'] then Tag.sign
  else Tag.str

/-! ### Reading a text of a known kind -/

def truth? (cs : List Char) : Option Bool :=
  if ["yes", "true", "on"].any (·.toList == cs) then some true
  else if ["no", "false", "off"].any (·.toList == cs) then some false
  else none

def readBool (cs : List Char) : Except Fault Bool :=
  let word := Text.lower cs
  match truth? word with
  | some b => .ok b
  | none => .error (.abort (.unknownTruth word))

def readDigits (base : Nat) (cs : List Char) : Except Fault Int :=
  match Numeral.int? base cs with
  | .ok i => .ok i
  | .error .malformed => .error (.unmarked (.integer base cs))
  | .error (.tooLong n) => .error (.unmarked (.integerTooLong n))

/-- An integer: binary after `0b`, hexadecimal after `0x`, octal after `0`, in sixties with colons,
and decimal otherwise.  Underscores are dropped first. -/
def readInt (cs : List Char) : Except Fault Int := do
  let cs := cs.filter (· != '_')
  match cs with
  | [] => .error (.abort .emptyNumber)
  | c :: _ =>
    let sign : Int := if c = '-' then -1 else 1
    let body := unsigned cs
    match body with
    | ['0'] => return 0
    | '0' :: 'b' :: ds => return sign * (← readDigits 2 ds)
    | '0' :: 'x' :: ds => return sign * (← readDigits 16 ds)
    | '0' :: _ => return sign * (← readDigits 8 body)
    | [] => .error (.abort .emptyNumber)
    | _ =>
      if body.contains ':' then
        let parts ← (Text.splitAt ':' body).mapM (readDigits 10)
        return sign * parts.foldl (fun n d => 60 * n + d) 0
      else return sign * (← readDigits 10 body)

def readDecimal (cs : List Char) : Except Fault Binary64 :=
  match Numeral.float? cs with
  | some x => .ok x
  | none => .error (.unmarked (.float cs))

/-- The sum of parts times the powers of sixty, the last part first. -/
def sumSixties : Nat → Binary64 → List Binary64 → Except Fault Binary64
  | _, sum, [] => .ok sum
  | base, sum, d :: ds =>
    match Binary64.ofNat base with
    | .infinite _ => .error (.abort .hugePlace)
    | _ => sumSixties (60 * base) (sum.add (d.mulNat base)) ds

/-- A text for a decimal number without its underscores and capitals. -/
def floatForm (cs : List Char) : List Char := Text.lower (cs.filter (· != '_'))

/-- Whether a text names the one value that is no number, a sign before it or not. -/
def namesNan (cs : List Char) : Bool := unsigned (floatForm cs) == ".nan".toList

def readFloat (cs : List Char) : Except Fault Binary64 := do
  let cs := floatForm cs
  match cs with
  | [] => .error (.abort .emptyNumber)
  | c :: _ =>
    let sign (x : Binary64) : Binary64 := if c = '-' then x.neg else x
    let body := unsigned cs
    if body == ".inf".toList then return sign (.infinite false)
    else if body == ".nan".toList then return .nan
    else if body.contains ':' then
      let parts ← (Text.splitAt ':' body).mapM readDecimal
      return sign (← sumSixties 1 (.finite false 0 Binary64.minExponent) parts.reverse)
    else return sign (← readDecimal body)

def base64Value? (c : Char) : Option Nat :=
  if 'A' ≤ c ∧ c ≤ 'Z' then some (c.toNat - 65)
  else if 'a' ≤ c ∧ c ≤ 'z' then some (c.toNat - 71)
  else if '0' ≤ c ∧ c ≤ '9' then some (c.toNat + 4)
  else if c = '+' then some 62
  else if c = '/' then some 63
  else none

/-- Groups of four characters give three octets; other characters are passed over, and padding that
completes a group ends the data.  `quad` is the place in the group, `left` the bits carried over,
`pads` the padding just seen; octets come newest first. -/
def base64Loop (quad left pads : Nat) (out : List UInt8) : List Char → Except Base64Fault (List UInt8)
  | [] =>
    if quad = 0 then .ok out.reverse
    else if quad = 1 then .error (.loneCharacter (out.length / 3 * 4 + 1))
    else .error .padding
  | c :: cs =>
    if c = '=' then
      if 2 ≤ quad then
        if 4 ≤ quad + pads + 1 then .ok out.reverse else base64Loop quad left (pads + 1) out cs
      else base64Loop quad left pads out cs
    else
      match base64Value? c with
      | none => base64Loop quad left pads out cs
      | some v =>
        match quad with
        | 0 => base64Loop 1 v 0 out cs
        | 1 => base64Loop 2 (v % 16) 0 (UInt8.ofNat (left * 4 + v / 16) :: out) cs
        | 2 => base64Loop 3 (v % 4) 0 (UInt8.ofNat (left * 16 + v / 4) :: out) cs
        | _ => base64Loop 0 0 0 (UInt8.ofNat (left * 64 + v) :: out) cs

/-- The characters beyond ASCII that come first. -/
def nonAscii? (cs : List Char) : Option NonAscii :=
  let ascii (c : Char) : Bool := decide (c.toNat < 128)
  let before := cs.takeWhile ascii
  let run := (cs.dropWhile ascii).takeWhile (!ascii ·)
  match run with
  | [] => none
  | [c] => some (.one c before.length)
  | _ => some (.run before.length (before.length + run.length - 1))

def readBinary (cs : List Char) : Except Problem (List UInt8) :=
  match nonAscii? cs with
  | some f => .error (.binaryNotAscii f)
  | none =>
    match base64Loop 0 0 0 [] cs with
    | .ok bs => .ok bs
    | .error f => .error (.binaryNotBase64 f)

def number (cs : List Char) : Nat := cs.foldl (fun n c => 10 * n + (c.toNat - 48)) 0

def isLeap (y : Nat) : Bool := y % 4 == 0 && (y % 100 != 0 || y % 400 == 0)

def daysIn (y m : Nat) : Nat :=
  if m = 2 then (if isLeap y then 29 else 28)
  else if m = 4 ∨ m = 6 ∨ m = 9 ∨ m = 11 then 30 else 31

def checkDate (y m d : Nat) : Except Fault Date :=
  if y = 0 then .error (.unmarked (.year y))
  else if m = 0 ∨ 12 < m then .error (.unmarked .month)
  else if d = 0 ∨ daysIn y m < d then .error (.unmarked .day)
  else .ok ⟨y, m, d⟩

/-- The minutes of a zone, less than a day either way. -/
def checkZone (sign : Char) (hours minutes : List Char) : Except Fault Int :=
  let total : Int := 60 * number hours + number minutes
  let total := if sign = '-' then -total else total
  if total ≤ -1440 ∨ 1440 ≤ total then
    .error (.unmarked (.offset (Int.fdiv total 1440) (60 * Int.fmod total 1440)))
  else .ok total

def readTimestamp (cs : List Char) : Except Fault Scalar :=
  match timestamp? (dropFinalBreak cs) with
  | none => .error (.abort .notTimestamp)
  | some t =>
    let (y, m, d) := (number t.year, number t.month, number t.day)
    match t.time with
    | none => do return .date (← checkDate y m d)
    | some (hour, minute, second) => do
      let offset ←
        match t.zone with
        | none => pure none
        | some none => pure (some 0)
        | some (some (s, hours, minutes)) => do pure (some (← checkZone s hours minutes))
      let date ← checkDate y m d
      let (h, mi, s) := (number hour, number minute, number second)
      if 23 < h then .error (.unmarked .hour)
      else if 59 < mi then .error (.unmarked .minute)
      else if 59 < s then .error (.unmarked .second)
      else
        let f := t.fraction.take 6
        let micro := number (f ++ List.replicate (6 - f.length) '0')
        return .dateTime ⟨date, h, mi, s, micro, offset⟩

/-! ### Scalars as keys -/

/-- Days from the first of March of year zero. -/
def dayNumber (d : Date) : Int :=
  let y : Int := if d.month ≤ 2 then d.year - 1 else d.year
  let m : Int := (d.month + 9) % 12
  365 * y + Int.fdiv y 4 - Int.fdiv y 100 + Int.fdiv y 400 + (m * 306 + 5) / 10 + (d.day - 1)

/-- The moment of a time with a zone, in microseconds. -/
def moment (t : DateTime) (offset : Int) : Int :=
  ((((dayNumber t.date * 24 + t.hour) * 60 + t.minute - offset) * 60 + t.second) * 1000000 +
    t.microsecond)

/-- The integer a truth value or integer counts as. -/
def asInt? : Scalar → Option Int
  | bool b => some (if b then 1 else 0)
  | int i => some i
  | _ => none

/-- Whether two scalars are one key: numbers and truth values compare by value, and times with a
zone by the moment they name. -/
def sameKey (a b : Scalar) : Bool :=
  match a.asInt?, b.asInt? with
  | some i, some j => i == j
  | some i, none =>
    match b with
    | float x => x.isInt i
    | _ => false
  | none, some j =>
    match a with
    | float x => x.isInt j
    | _ => false
  | none, none =>
    match a, b with
    | dateTime s, dateTime t =>
      match s.offset, t.offset with
      | some o, some p => moment s o == moment t p
      | _, _ => s == t
    | float (.finite s m e), float (.finite t n f) => (m == 0 && n == 0) || (s == t && m == n && e == f)
    | _, _ => a == b

end Scalar
end Yaml
end TalkDeck
