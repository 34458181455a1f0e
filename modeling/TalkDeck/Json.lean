import TalkDeck.Number.Shortest
import TalkDeck.Number.Numeral
import TalkDeck.Text.Percent

/-
JSON values, with the members of an object in the order in which they are written, and integers
kept apart from other numbers.
-/

namespace TalkDeck

inductive Json where
  | null
  | bool (b : Bool)
  | int (i : Int)
  | real (x : Binary64)
  | str (s : String)
  | arr (items : List Json)
  | obj (members : List (String × Json))
deriving Repr, Inhabited

namespace Json

def get? (j : Json) (key : String) : Option Json :=
  match j with
  | .obj ms => ms.lookup key
  | _ => none

/-! ### Writing -/

/-- Line breaks and indentation, or none. -/
structure Style where
  indent : Option Nat

def escapeUnit (n : Nat) : List Char := ['\\', 'u'] ++ Text.hex 4 n

/-- A character as ASCII. -/
def escape (c : Char) : List Char :=
  let n := c.toNat
  if c = '\x22' then ['\\', '\x22']
  else if c = '\\' then ['\\', '\\']
  else if c = '\n' then ['\\', 'n']
  else if c = '\r' then ['\\', 'r']
  else if c = '\t' then ['\\', 't']
  else if n = 8 then ['\\', 'b']
  else if n = 12 then ['\\', 'f']
  else if 32 ≤ n ∧ n < 127 then [c]
  else if n < 0x10000 then escapeUnit n
  else escapeUnit (0xD800 + (n - 0x10000) / 0x400) ++ escapeUnit (0xDC00 + (n - 0x10000) % 0x400)

def quote (s : String) : String :=
  String.ofList ('\x22' :: (s.toList.flatMap escape ++ ['\x22']))

def Style.newline (st : Style) (depth : Nat) : String :=
  match st.indent with
  | none => ""
  | some n => String.ofList ('\n' :: List.replicate (n * depth) ' ')

def Style.comma (st : Style) : String := if st.indent.isSome then "," else ", "

def realText : Binary64 → String
  | .nan => "NaN"
  | .infinite s => if s then "-Infinity" else "Infinity"
  | x => String.ofList x.text

mutual

def write (st : Style) (depth : Nat) : Json → String
  | .null => "null"
  | .bool b => if b then "true" else "false"
  | .int i => toString i
  | .real x => realText x
  | .str s => quote s
  | .arr [] => "[]"
  | .arr (j :: js) =>
    "[" ++ st.newline (depth + 1) ++ write st (depth + 1) j ++ writeItems st (depth + 1) js ++
      st.newline depth ++ "]"
  | .obj [] => "\x7b\x7d"
  | .obj ((k, j) :: ms) =>
    "\x7b" ++ st.newline (depth + 1) ++ quote k ++ ": " ++ write st (depth + 1) j ++
      writeMembers st (depth + 1) ms ++ st.newline depth ++ "\x7d"

def writeItems (st : Style) (depth : Nat) : List Json → String
  | [] => ""
  | j :: js => st.comma ++ st.newline depth ++ write st depth j ++ writeItems st depth js

def writeMembers (st : Style) (depth : Nat) : List (String × Json) → String
  | [] => ""
  | (k, j) :: ms =>
    st.comma ++ st.newline depth ++ quote k ++ ": " ++ write st depth j ++ writeMembers st depth ms

end

/-- On one line. -/
def compact (j : Json) : String := write ⟨none⟩ 0 j

/-- With two spaces of indentation for each level. -/
def pretty (j : Json) : String := write ⟨some 2⟩ 0 j

/-! ### Reading -/

namespace Reader

def isSpace (c : Char) : Bool := c == ' ' || c == '\n' || c == '\r' || c == '\t'

def skip (cs : List Char) : List Char := cs.dropWhile isSpace

/-- Four hexadecimal digits. -/
def unit? : List Char → Option (Nat × List Char)
  | a :: b :: c :: d :: cs => do
    let a ← Text.Percent.hexValue? a
    let b ← Text.Percent.hexValue? b
    let c ← Text.Percent.hexValue? c
    let d ← Text.Percent.hexValue? d
    return (((a * 16 + b) * 16 + c) * 16 + d, cs)
  | _ => none

/-- The character of one or two escaped units.  A lone surrogate is replaced. -/
def unicode? (cs : List Char) : Option (Char × List Char) := do
  let (u, rest) ← unit? cs
  if 0xD800 ≤ u ∧ u < 0xDC00 then
    match rest with
    | '\\' :: 'u' :: more =>
      match unit? more with
      | some (v, after) =>
        if 0xDC00 ≤ v ∧ v < 0xE000 then
          return (Char.ofNat (0x10000 + (u - 0xD800) * 0x400 + (v - 0xDC00)), after)
        else return (Char.ofNat 0xFFFD, rest)
      | none => none
    | _ => return (Char.ofNat 0xFFFD, rest)
  else if 0xDC00 ≤ u ∧ u < 0xE000 then return (Char.ofNat 0xFFFD, rest)
  else return (Char.ofNat u, rest)

/-- The rest of a string after its opening quote; characters newest first. -/
def string? : Nat → List Char → List Char → Option (String × List Char)
  | 0, _, _ => none
  | _ + 1, _, [] => none
  | fuel + 1, acc, c :: cs =>
    if c = '\x22' then some (String.ofList acc.reverse, cs)
    else if c = '\\' then
      match cs with
      | 'n' :: cs => string? fuel ('\n' :: acc) cs
      | 'r' :: cs => string? fuel ('\r' :: acc) cs
      | 't' :: cs => string? fuel ('\t' :: acc) cs
      | 'b' :: cs => string? fuel (Char.ofNat 8 :: acc) cs
      | 'f' :: cs => string? fuel (Char.ofNat 12 :: acc) cs
      | 'u' :: cs => do
        let (u, cs) ← unicode? cs
        string? fuel (u :: acc) cs
      | e :: cs => if e = '\x22' ∨ e = '\\' ∨ e = '/' then string? fuel (e :: acc) cs else none
      | [] => none
    else string? fuel (c :: acc) cs

def isNumberChar (c : Char) : Bool :=
  c.isDigit || c == '-' || c == '+' || c == '.' || c == 'e' || c == 'E'

/-- A number is an integer unless it has a point or an exponent. -/
def number? (cs : List Char) : Option (Json × List Char) := do
  let text := cs.takeWhile isNumberChar
  let rest := cs.dropWhile isNumberChar
  if text.any fun c => c == '.' || c == 'e' || c == 'E' then
    return (.real (← Numeral.float? text), rest)
  else
    match Numeral.int? 10 text with
    | .ok i => return (.int i, rest)
    | .error _ => none

mutual

def value? : Nat → List Char → Option (Json × List Char)
  | 0, _ => none
  | fuel + 1, cs =>
    match skip cs with
    | '\x22' :: cs => do
      let (s, cs) ← string? (cs.length + 1) [] cs
      return (.str s, cs)
    | '[' :: cs =>
      match skip cs with
      | ']' :: cs => some (.arr [], cs)
      | cs => items? fuel [] cs
    | '{' :: cs =>
      match skip cs with
      | '}' :: cs => some (.obj [], cs)
      | cs => members? fuel [] cs
    | 'n' :: 'u' :: 'l' :: 'l' :: cs => some (.null, cs)
    | 't' :: 'r' :: 'u' :: 'e' :: cs => some (.bool true, cs)
    | 'f' :: 'a' :: 'l' :: 's' :: 'e' :: cs => some (.bool false, cs)
    | cs => number? cs

def items? : Nat → List Json → List Char → Option (Json × List Char)
  | 0, _, _ => none
  | fuel + 1, acc, cs => do
    let (j, cs) ← value? fuel cs
    match skip cs with
    | ',' :: cs => items? fuel (j :: acc) cs
    | ']' :: cs => return (.arr (j :: acc).reverse, cs)
    | _ => none

def members? : Nat → List (String × Json) → List Char → Option (Json × List Char)
  | 0, _, _ => none
  | fuel + 1, acc, cs => do
    match skip cs with
    | '\x22' :: cs =>
      let (k, cs) ← string? (cs.length + 1) [] cs
      match skip cs with
      | ':' :: cs =>
        let (j, cs) ← value? fuel cs
        match skip cs with
        | ',' :: cs => members? fuel ((k, j) :: acc) cs
        | '}' :: cs => return (.obj ((k, j) :: acc).reverse, cs)
        | _ => none
      | _ => none
    | _ => none

end

end Reader

/-- Reads a JSON text.  A key that an object repeats keeps its first place here; `get?` finds the
first. -/
def parse? (s : String) : Option Json := do
  let cs := s.toList
  let (j, rest) ← Reader.value? (cs.length + 1) cs
  if (Reader.skip rest).isEmpty then return j else none

end Json
end TalkDeck
