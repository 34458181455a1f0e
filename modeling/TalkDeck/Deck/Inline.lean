import TalkDeck.Deck.Line
import TalkDeck.Position
import TalkDeck.Text.Percent

/-
Inline links of a line: `[label](scheme:type?key=value&…)`.  A line is read from left to right; at
each opening bracket the longest form is tried, and reading goes on after a link that was found.
-/

namespace TalkDeck

/-- A decoded value of a query and the range of its raw text. -/
structure InlineParam where
  value : String
  range : Range
deriving DecidableEq, Repr

/-- An inline link: of the whole, its label, its type and its parameters in the order of their first
occurrence. -/
structure Inline where
  range : Range
  label : String
  type : String
  typeRange : Range
  params : List (String × InlineParam)
deriving DecidableEq, Repr

namespace Inline

open Text

/-- A kind of link: the word before the colon, the types it admits, and whether its label may be
empty. -/
structure Form where
  scheme : List Char
  admits : List Char → Bool
  bareLabel : Bool

/-- Links that run an action; the type is any dotted word of small letters. -/
def actionForm : Form where
  scheme := "action:".toList
  admits := fun t => !t.isEmpty && t.all fun c => decide ('a' ≤ c ∧ c ≤ 'z') || c == '.'
  bareLabel := false

/-- Directives that render something in place. -/
def renderForm : Form where
  scheme := "render:".toList
  admits := fun t => ["file", "command", "diff"].any (·.toList == t)
  bareLabel := true

/-- A link's raw parts, as they stand one after the other in the text. -/
structure Raw where
  label : List Char
  type : List Char
  /-- What follows the question mark, if there is one. -/
  query : Option (List Char)
deriving DecidableEq, Repr

namespace Raw

/-- The text of a link. -/
def text (f : Form) (r : Raw) : List Char :=
  ['['] ++ r.label ++ [']', '('] ++ f.scheme ++ r.type ++
    (match r.query with
      | some q => '?' :: q
      | none => []) ++ [')']

def typeStart (f : Form) (r : Raw) : Nat := r.label.length + 3 + f.scheme.length

def queryStart (f : Form) (r : Raw) : Nat := r.typeStart f + r.type.length + 1

end Raw

/-- The end of a link after its type: an optional query, and the closing parenthesis. -/
def ending? : List Char → Option (Option (List Char))
  | '?' :: cs =>
    if (cs.dropWhile (· != ')')).isEmpty then none else some (some (cs.takeWhile (· != ')')))
  | ')' :: _ => some none
  | _ => none

/-- The link that the text opens with. -/
def open? (f : Form) : List Char → Option Raw
  | '[' :: cs => do
    let label := cs.takeWhile (· != ']')
    if label.isEmpty && !f.bareLabel then none
    else
      let rest ← strip? ([']', '('] ++ f.scheme) (cs.dropWhile (· != ']'))
      let inType (c : Char) : Bool := c != '?' && c != ')'
      let type := rest.takeWhile inType
      if f.admits type then
        let query ← ending? (rest.dropWhile inType)
        return ⟨label, type, query⟩
      else none
  | _ => none

/-- The links of a line with the characters before each, reading `cs` from `offset` on after passing
over `skip` characters. -/
def scan (f : Form) : Nat → Nat → List Char → List (Nat × Raw)
  | _, _, [] => []
  | skip + 1, offset, _ :: cs => scan f skip (offset + 1) cs
  | 0, offset, c :: cs =>
    match open? f (c :: cs) with
    | some r => (offset, r) :: scan f ((r.text f).length - 1) (offset + 1) cs
    | none => scan f 0 (offset + 1) cs

/-- Sets the value of a key.  A key keeps its first place and has its last value. -/
def put {α : Type} (ps : List (String × α)) (key : String) (a : α) : List (String × α) :=
  if ps.any (·.1 == key) then ps.map fun (k, b) => if k == key then (k, a) else (k, b)
  else ps ++ [(key, a)]

/-- The parameters of a query that starts at character `offset` of a line.  A piece without a key
before its first equals sign is passed over. -/
def paramsFrom (line : Nat) : Nat → List (List Char) → List (String × InlineParam) →
    List (String × InlineParam)
  | _, [], ps => ps
  | offset, piece :: pieces, ps =>
    let key := piece.takeWhile (· != '=')
    let ps :=
      match piece.dropWhile (· != '=') with
      | _ :: raw =>
        if key.isEmpty then ps
        else
          let start := offset + key.length + 1
          put ps (String.ofList key)
            ⟨String.ofList (Percent.decode raw), Range.onLine line start (start + raw.length)⟩
      | [] => ps
    paramsFrom line (offset + piece.length + 1) pieces ps

def ofRaw (f : Form) (line offset : Nat) (r : Raw) : Inline where
  range := Range.onLine line offset (offset + (r.text f).length)
  label := String.ofList r.label
  type := String.ofList r.type
  typeRange := Range.onLine line (offset + r.typeStart f) (offset + r.typeStart f + r.type.length)
  params := paramsFrom line (offset + r.queryStart f) (splitAt '&' (r.query.getD [])) []

/-- The links of one line. -/
def ofLine (f : Form) (n : Nat) (l : Line) : List Inline :=
  (scan f 0 0 l).map fun (offset, r) => ofRaw f n offset r

/-- The links of consecutive lines, the first of which has number `n`. -/
def ofLines (f : Form) (n : Nat) (ls : List Line) : List Inline :=
  (ls.zipIdx n).flatMap fun (l, i) => ofLine f i l

end Inline
end TalkDeck
