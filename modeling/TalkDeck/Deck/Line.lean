import TalkDeck.Text.Blank
import TalkDeck.Text.Digit
import TalkDeck.Text.Split
import TalkDeck.Text.Word

/-
What a single line of a deck can be: a slide delimiter, a fence, a heading, a `key: value` line, the
start of a step.
-/

namespace TalkDeck

/-- The characters of one line, without a line feed. -/
abbrev Line := List Char

namespace Line

open Text

/-- Three dashes or more, with nothing but blanks after them. -/
def isDelimiter (l : Line) : Bool :=
  (strip? ['-', '-', '-'] l).isSome && allBlank (l.dropWhile (· == '-'))

def fence : List Char := List.replicate 3 (Char.ofNat 0x60)

/-- Three backquotes, whatever follows. -/
def isFence (l : Line) : Bool := (strip? fence l).isSome

/-- Three backquotes and nothing but blanks. -/
def isFenceClose (l : Line) : Bool := (strip? fence l).any allBlank

/-- Three backquotes, the word `action` and nothing but blanks. -/
def isActionFence (l : Line) : Bool := (strip? (fence ++ "action".toList) l).any allBlank

/-- The text of a heading: number signs, a blank and one more character at least. -/
def heading? (l : Line) : Option (List Char) :=
  let rest := l.dropWhile (· == '#')
  if l.head? = some '#' ∧ 2 ≤ rest.length ∧ rest.head?.any isBlank then some (trim rest) else none

/-- Where a value begins: after the colon at `colon` and any blanks. -/
def valueStart (l : Line) (colon : Nat) : Nat := colon + 1 + blankLead (l.drop (colon + 1))

/-- Where a text at the end of the line stops, blanks left out. -/
def trimmedStop (l : Line) (start : Nat) : Nat := start + (trimRight (l.drop start)).length

/-- A key in a line: from where to where it runs, and where its colon stands. -/
structure KeySpan where
  start : Nat
  stop : Nat
  colon : Nat
deriving DecidableEq, Repr

namespace KeySpan

def key (k : KeySpan) (l : Line) : String := String.ofList ((l.drop k.start).take (k.stop - k.start))

def value (k : KeySpan) (l : Line) : List Char := l.drop (valueStart l k.colon)

end KeySpan

/-- A dotted name at `start`, then blanks and a colon. -/
def keyAt? (start : Nat) (l : Line) : Option KeySpan :=
  let rest := l.drop start
  let name := rest.takeWhile isDotted
  let after := rest.drop name.length
  let gap := blankLead after
  if name.head?.any isWord && (after.drop gap).head? == some ':' then
    some ⟨start, start + name.length, start + name.length + gap⟩
  else none

/-- The length of an indentation with perhaps one dash in it. -/
def dashLead (l : Line) : Nat :=
  let lead := blankLead l
  match l.drop lead with
  | '-' :: rest => lead + 1 + blankLead rest
  | _ => lead

/-- The key of a line that stands at the left edge, or directly after a dash there. -/
def topKey? (l : Line) : Option KeySpan :=
  if l.head?.any isBlank then none else keyAt? (dashLead l) l

/-- The key of a line with any indentation. -/
def indentedKey? (l : Line) : Option KeySpan := keyAt? (blankLead l) l

/-- The key of a step's parameter: two blanks or more, a word, and directly a colon. -/
def stepKey? (l : Line) : Option KeySpan :=
  let lead := blankLead l
  let name := (l.drop lead).takeWhile isWord
  let stop := lead + name.length
  if 2 ≤ lead && !name.isEmpty && (l.drop stop).head? == some ':' then some ⟨lead, stop, stop⟩ else none

def typeWord : List Char := "type:".toList

/-- Whether the line is the start of a step: a dash, blanks, and `type:`. -/
def isStepStart (l : Line) : Bool :=
  match trimLeft l with
  | '-' :: rest => rest.head?.any isBlank && (strip? typeWord (trimLeft rest)).isSome
  | _ => false

/-- Where the first `type:` with a blank before it stands, in a line read from `offset` on. -/
def typeAfterBlank? : Nat → Bool → List Char → Option Nat
  | _, _, [] => none
  | offset, blankBefore, c :: cs =>
    if blankBefore && (strip? typeWord (c :: cs)).isSome then some offset
    else typeAfterBlank? (offset + 1) (isBlank c) cs

/-- Where the value of the first `type:` with a blank before it begins. -/
def stepTypeStart? (l : Line) : Option Nat :=
  (typeAfterBlank? 0 false l).map fun n => valueStart l (n + 4)

/-- Where the first `type:` of the line stands. -/
def typeIndex? : Nat → List Char → Option Nat
  | _, [] => none
  | offset, c :: cs =>
    if (strip? typeWord (c :: cs)).isSome then some offset else typeIndex? (offset + 1) cs

/-- Where the value of a `type:` at the left edge begins.  A value of blanks only is its last
blank, and without any there is none. -/
def typeStart? (l : Line) : Option Nat :=
  match strip? typeWord l with
  | none => none
  | some rest =>
    if rest.isEmpty then none
    else if allBlank rest then some (l.length - 1)
    else some (valueStart l 4)

/-- Whether the line is `type:` with any indentation. -/
def isTypeLine (l : Line) : Bool := (strip? typeWord (trimLeft l)).isSome

/-- The blanks before and after the dash of a line that opens with one. -/
def dashBlanks? (l : Line) : Option (Nat × Nat) :=
  match trimLeft l with
  | '-' :: rest => if rest.head?.any isBlank then some (blankLead l, blankLead rest) else none
  | _ => none

/-- Whether the text from `a` to `b` stands there on its own: no word character or dot beside it.
What stands from `limit` on is not seen. -/
def standsAlone (l : Line) (limit a b : Nat) : Bool :=
  (a == 0 || !(l[a - 1]?).any isDotted) && (decide (limit ≤ b) || !(l[b]?).any isDotted)

/-- The first place from `start` at which `word` stands on its own before `limit`. -/
def findWord? (l : Line) (word : List Char) (start limit : Nat) : Option Nat :=
  let limit := min limit l.length
  (List.range' start (limit + 1 - start)).find? fun a =>
    decide (a + word.length ≤ limit) && (strip? word (l.drop a)).isSome &&
      standsAlone l limit a (a + word.length)

end Line
end TalkDeck
