import TalkDeck.Position
import TalkDeck.Text.Case
import TalkDeck.Text.Split

/-
What the editor knows of a workspace: its files and its launch configurations.
-/

namespace TalkDeck
namespace Workspace

structure File where
  relativePath : String
  uri : String
deriving DecidableEq, Repr

structure LaunchConfig where
  name : String
  uri : String
  line : Nat
deriving DecidableEq, Repr

/-- A place in a file. -/
structure Location where
  uri : String
  range : Range
deriving DecidableEq, Repr

/-- The files and launch configurations below a root, whose URI ends in a slash. -/
structure Index where
  root : String
  files : List File
  launch : List LaunchConfig
deriving DecidableEq, Repr

namespace Index

open Text

def empty (root : String) : Index :=
  ⟨if root.toList.getLast? = some '/' then root else root ++ "/", [], []⟩

def lowered (s : String) : List Char := lower s.toList

/-- The files whose path starts with `lead`, whatever the case. -/
def filesFrom (i : Index) (lead : String) : List File :=
  i.files.filter fun f => (strip? (lowered lead) (lowered f.relativePath)).isSome

/-- The files whose path contains `part`, whatever the case. -/
def filesWith (i : Index) (part : String) : List File :=
  i.files.filter fun f => hasPart (lowered part) (lowered f.relativePath)

/-- The URI of a path, in which backslashes count as slashes. -/
def resolve? (i : Index) (path : String) : Option String :=
  let path := String.ofList (replaceChar '\\' '/' path.toList)
  (i.files.find? (·.relativePath == path)).map (·.uri)

/-- Adds a file, unless its URI is there already. -/
def add (i : Index) (f : File) : Index :=
  if i.files.any (·.uri == f.uri) then i else { i with files := i.files ++ [f] }

def remove (i : Index) (uri : String) : Index :=
  { i with files := i.files.filter (·.uri != uri) }

/-- The path of a URI below the root. -/
def relative? (i : Index) (uri : String) : Option String :=
  (strip? i.root.toList uri.toList).map String.ofList

/-- Where the launch configuration of a name stands. -/
def launchAt (i : Index) (name : String) : Except OutOfRange (Option Location) :=
  match i.launch.find? (·.name == name) with
  | none => .ok none
  | some l => do return some ⟨l.uri, ← Range.of l.line 0 l.line 0⟩

def launchFrom (i : Index) (lead : String) : List LaunchConfig :=
  i.launch.filter fun l => (strip? (lowered lead) (lowered l.name)).isSome

def clear (i : Index) : Index := { i with files := [], launch := [] }

end Index
end Workspace
end TalkDeck
