import TalkDeck.Lint.FileTree

/-
Patterns of paths.  A part may hold stars, question marks and classes of characters; a part of two
stars stands for any number of directories.
-/

namespace TalkDeck
namespace Lint

/-- One element of a pattern for names. -/
inductive Wild where
  | char (c : Char)
  | any
  | many
  | oneOf (negated : Bool) (singles : List Char) (ranges : List (Char × Char))
deriving DecidableEq, Repr

namespace Wild

/-! ### Classes of characters -/

/-- The inside of a class up to its closing bracket, which is not its first character, and what
follows. -/
def classBody? (cs : List Char) : Option (List Char × List Char) :=
  let (lead, rest) :=
    match cs with
    | '!' :: ']' :: rest => (['!', ']'], rest)
    | '!' :: rest => (['!'], rest)
    | ']' :: rest => ([']'], rest)
    | rest => ([], rest)
  match rest.dropWhile (· != ']') with
  | _ :: after => some (lead ++ rest.takeWhile (· != ']'), after)
  | [] => none

/-- Cuts a class at its dashes.  The first `keep` characters are no such dashes: one at the start, and
two after a cut, of which the first ends the range. -/
def chunks (keep : Nat) : List Char → List (List Char)
  | [] => [[]]
  | c :: cs =>
    if keep = 0 ∧ c = '-' then [] :: chunks 2 cs
    else
      match chunks (keep - 1) cs with
      | [] => [[c]]
      | piece :: pieces => (c :: piece) :: pieces

/-- A dash at the end is a dash. -/
def closeChunks (pieces : List (List Char)) : List (List Char) :=
  match pieces.reverse with
  | [] :: before :: more => ((before ++ ['-']) :: more).reverse
  | _ => pieces

/-- Joins neighbours whose range would be empty, from the right. -/
def dropEmptyRanges : List (List Char) → List (List Char)
  | [] => []
  | piece :: pieces =>
    match dropEmptyRanges pieces with
    | [] => [piece]
    | next :: more =>
      match piece.getLast?, next.head? with
      | some a, some b =>
        if b < a then (piece.dropLast ++ next.drop 1) :: more else piece :: next :: more
      | _, _ => piece :: next :: more

/-- The ranges between neighbours. -/
def rangesOf : List (List Char) → List (Char × Char)
  | a :: b :: more =>
    match a.getLast?, b.head? with
    | some x, some y => (x, y) :: rangesOf (b :: more)
    | _, _ => rangesOf (b :: more)
  | _ => []

/-- A class from the text between its brackets.  It is negated when an exclamation mark stands in
front once empty ranges are gone; a dash that then comes first is a dash. -/
def ofClass (cs : List Char) : Wild :=
  let keep := if cs.head? = some '!' then 2 else 1
  match dropEmptyRanges (closeChunks (chunks keep cs)) with
  | ['!'] :: piece :: pieces =>
    .oneOf true ('-' :: (piece :: pieces).flatten) (rangesOf (piece :: pieces))
  | ('!' :: piece) :: pieces => .oneOf true (piece :: pieces).flatten (rangesOf (piece :: pieces))
  | pieces => .oneOf false pieces.flatten (rangesOf pieces)

/-- The elements of a pattern. -/
def ofChars : Nat → List Char → List Wild
  | 0, _ => []
  | _, [] => []
  | fuel + 1, c :: cs =>
    if c = '*' then .many :: ofChars fuel cs
    else if c = '?' then .any :: ofChars fuel cs
    else if c = '[' then
      match classBody? cs with
      | some (body, rest) => ofClass body :: ofChars fuel rest
      | none => .char c :: ofChars fuel cs
    else .char c :: ofChars fuel cs

/-- Whether one character fits an element. -/
def fits (c : Char) : Wild → Bool
  | .char d => c == d
  | .any => true
  | .many => false
  | .oneOf negated singles ranges =>
    (singles.contains c || ranges.any fun (a, b) => decide (a ≤ c ∧ c ≤ b)) != negated

/-- Whether a name fits a pattern. -/
def accepts : List Wild → List Char → Bool
  | [], cs => cs.isEmpty
  | .many :: ws, [] => accepts ws []
  | .many :: ws, c :: cs => accepts ws (c :: cs) || accepts (.many :: ws) cs
  | _ :: _, [] => false
  | w :: ws, c :: cs => w.fits c && accepts ws cs
termination_by ws cs => (ws.length, cs.length)

end Wild

/-- One part of a pattern of paths. -/
inductive Selector where
  | name (s : String)
  | wild (ws : List Wild)
  | above
  | anyDepth
  /-- A slash at the end: only directories. -/
  | stop
deriving DecidableEq, Repr

/-- What is wrong with a pattern. -/
inductive PatternFault where
  | empty
  /-- No pattern at all. -/
  | absent
  | absolute
  | strayStars
  | noParts
  | onlySlash
deriving DecidableEq, Repr

namespace PatternFault

def message : PatternFault → String
  | empty => "Unacceptable pattern: ''"
  | absent => "Unacceptable pattern: []"
  | absolute => "Non-relative patterns are unsupported"
  | strayStars => "Invalid pattern: '**' can only be an entire path component"
  | noParts => "tuple index out of range"
  | onlySlash => "'_TerminatingSelector' object has no attribute 'select_from'"

end PatternFault

namespace Glob

open Text

def selectorOf (part : String) : Except PatternFault Selector :=
  let cs := part.toList
  if part = "**" then .ok .anyDepth
  else if part = ".." then .ok .above
  else if hasPart ['*', '*'] cs then .error .strayStars
  else if cs.any fun c => c == '*' || c == '?' || c == '[' then .ok (.wild (Wild.ofChars (cs.length + 1) cs))
  else .ok (.name part)

/-- The selectors of a pattern. -/
def selectors (pattern : Option String) : Except PatternFault (List Selector) := do
  match pattern with
  | none => .error .absent
  | some "" => .error .empty
  | some pattern =>
    let p := Path.of pattern
    if p.isAbsolute then .error .absolute
    else
      let slash := pattern.toList.getLast? == some '/'
      if p.parts.isEmpty then .error (if slash then .onlySlash else .noParts)
      else
        let found ← p.parts.mapM selectorOf
        return found ++ if slash then [.stop] else []

/-- Without repetitions, the first of each kept. -/
def distinct (ps : List Path) : List Path :=
  ps.foldl (fun seen p => if seen.contains p then seen else seen ++ [p]) []

/-- The paths below `p` that the selectors lead to. -/
def select (t : FileTree) (p : Path) : List Selector → Except Obstacle (List Path)
  | [] => .ok [p]
  | .stop :: _ => .ok [p]
  | .name s :: rest => do
    let q := p.child s
    if ← if rest.isEmpty then (·.isSome) <$> t.find? q else t.isDirectory q then select t q rest
    else return []
  | .above :: rest => select t (p.child "..") rest
  | .anyDepth :: rest =>
    match t.placeOf p with
    | .ok place => do
      let found ← (t.waysDown place).mapM fun way => select t { p with parts := p.parts ++ way } rest
      return distinct found.flatten
    | .error _ => .ok []
  | .wild ws :: rest =>
    match t.placeOf p with
    | .ok place => do
      let names ← (t.children place).filterM fun s => do
        return Wild.accepts ws s.toList && (rest.isEmpty || (← t.isDirectory (p.child s)))
      return (← names.mapM fun s => select t (p.child s) rest).flatten
    | .error _ => .ok []

/-- The files that selectors lead to from a directory, in the order of their paths. -/
def files (t : FileTree) (base : Path) (selectors : List Selector) : Except Obstacle (List Path) := do
  let found ← (← select t base selectors).filterM t.isFile
  return found.mergeSort Path.le

end Glob
end Lint
end TalkDeck
