import TalkDeck.Text.Split

/-
Paths as written: where they start, and their parts.  Empty parts and single dots are dropped, and
double dots are kept.
-/

namespace TalkDeck
namespace Lint

structure Path where
  /-- What the path opens with: nothing, or the slashes of an absolute path. -/
  root : String
  parts : List String
deriving DecidableEq, Repr

namespace Path

open Text

/-- The parts of a text between its slashes. -/
def partsOf (cs : List Char) : List String :=
  ((splitAt '/' cs).map String.ofList).filter fun s => s != "" && s != "."

/-- Exactly two slashes in front are kept. -/
def rootOf : List Char → String
  | '/' :: '/' :: '/' :: _ => "/"
  | '/' :: '/' :: _ => "//"
  | '/' :: _ => "/"
  | _ => ""

def of (s : String) : Path := ⟨rootOf s.toList, partsOf s.toList⟩

def isAbsolute (p : Path) : Bool := p.root != ""

def text (p : Path) : String :=
  if p.root = "" ∧ p.parts = [] then "." else p.root ++ String.intercalate "/" p.parts

/-- The last part. -/
def name (p : Path) : String := p.parts.getLast?.getD ""

/-- The path of the first `n` parts. -/
def upTo (p : Path) (n : Nat) : Path := { p with parts := p.parts.take n }

/-- Whether the path holds the character that no path can. -/
def hasNul (p : Path) : Bool := p.parts.any (·.toList.contains '\x00')

def child (p : Path) (part : String) : Path := { p with parts := p.parts ++ [part] }

/-- A path seen from another one; an absolute path stays what it is. -/
def join (p : Path) (s : String) : Path :=
  let q := of s
  if q.isAbsolute then q else { p with parts := p.parts ++ q.parts }

/-- The text of a path below `base`. -/
def relativeTo (base p : Path) : String := text ⟨"", p.parts.drop base.parts.length⟩

/-- The order of parts, each by its characters. -/
def partsLe : List String → List String → Bool
  | [], _ => true
  | _ :: _, [] => false
  | a :: as, b :: bs => if a = b then partsLe as bs else decide (a < b)

def le (p q : Path) : Bool := if p.root = q.root then partsLe p.parts q.parts else decide (p.root < q.root)

end Path
end Lint
end TalkDeck
