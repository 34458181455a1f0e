import TalkDeck.Lint.Path
import TalkDeck.Text.Percent

/-
Directories and files as a value.  A place is the list of names that leads to it from the root, and
the root is always a directory.
-/

namespace TalkDeck
namespace Lint

inductive Entry where
  | directory
  | file (octets : List UInt8)
  /-- A file that may be written but not read. -/
  | unreadable
deriving DecidableEq, Repr

abbrev Place := List String

structure FileTree where
  /-- The working directory. -/
  here : Place
  entries : List (Place × Entry)
deriving DecidableEq, Repr

/-- What can go wrong with a path. -/
inductive Trouble where
  | missing
  | taken
  | notDirectory
  | isDirectory
  | nameTooLong
deriving DecidableEq, Repr

namespace Trouble

def message (e : Trouble) (p : Path) : String :=
  let what :=
    match e with
    | missing => "[Errno 2] No such file or directory: "
    | taken => "[Errno 17] File exists: "
    | notDirectory => "[Errno 20] Not a directory: "
    | isDirectory => "[Errno 21] Is a directory: "
    | nameTooLong => "[Errno 36] File name too long: "
  what ++ Text.quoted p.text

end Trouble

/-- A trouble and the path that it is with. -/
structure Obstacle where
  trouble : Trouble
  path : Path
deriving DecidableEq, Repr

def Obstacle.message (o : Obstacle) : String := o.trouble.message o.path

namespace FileTree

def entryAt (t : FileTree) (place : Place) : Option Entry :=
  if place = [] then some .directory else t.entries.lookup place

def put (t : FileTree) (place : Place) (e : Entry) : FileTree :=
  { t with entries := (place, e) :: t.entries.filter (·.1 != place) }

/-- Adds an entry, and the directories above it that are missing. -/
def add (t : FileTree) (place : Place) (e : Entry) : FileTree :=
  let above := (List.range place.length).map fun n => place.take n
  (above.foldl (fun t p => if (t.entryAt p).isSome then t else t.put p .directory) t).put place e

/-- Where one part of a path leads from a directory. -/
def stepTo (place : Place) (part : String) : Place :=
  if part = ".." then place.dropLast else place ++ [part]

/-- The most octets in the name of an entry. -/
def maxName : Nat := 255

/-- The most octets in a path. -/
def maxPath : Nat := 4095

/-- Follows parts from a place.  All but the last must lead through directories, and no part may be
too long for a name. -/
def walk (t : FileTree) : Place → List String → Except Trouble Place
  | place, [] => .ok place
  | place, part :: parts =>
    match t.entryAt place with
    | none => .error .missing
    | some .directory =>
      if maxName < part.utf8ByteSize then .error .nameTooLong else t.walk (stepTo place part) parts
    | some _ => .error .notDirectory

def origin (t : FileTree) (p : Path) : Place := if p.isAbsolute then [] else t.here

/-- The place that a path leads to, where an entry may be missing. -/
def placeOf (t : FileTree) (p : Path) : Except Trouble Place :=
  if maxPath < p.text.utf8ByteSize then .error .nameTooLong else t.walk (t.origin p) p.parts

/-- What a path leads to.  A path that leads nowhere is no trouble, but one that is too long is. -/
def find? (t : FileTree) (p : Path) : Except Obstacle (Option Entry) :=
  if p.hasNul then .ok none
  else
    match t.placeOf p with
    | .ok place => .ok (t.entryAt place)
    | .error .nameTooLong => .error ⟨.nameTooLong, p⟩
    | .error _ => .ok none

def isDirectory (t : FileTree) (p : Path) : Except Obstacle Bool :=
  return (← t.find? p) == some .directory

def isFile (t : FileTree) (p : Path) : Except Obstacle Bool := do
  match ← t.find? p with
  | some (.file _) | some .unreadable => return true
  | _ => return false

/-- The names in a directory. -/
def children (t : FileTree) (place : Place) : List String :=
  t.entries.filterMap fun (q, _) => if q ≠ [] ∧ q.dropLast = place then q.getLast? else none

/-- The ways from a directory down to the directories below it, itself included. -/
def waysDown (t : FileTree) (place : Place) : List (List String) :=
  [] :: t.entries.filterMap fun (q, e) =>
    if e = .directory ∧ place.length < q.length ∧ q.take place.length = place then
      some (q.drop place.length)
    else none

/-- Makes one directory in a directory that exists.  A path that ends in itself or above names
something that exists. -/
def makeOne (t : FileTree) (p : Path) : Except Trouble FileTree := do
  let place ← t.placeOf p
  if p.parts = [] ∨ p.name = ".." ∨ (t.entryAt place).isSome then .error .taken
  else return t.put place .directory

/-- Makes one directory; with `keep` one that exists already will do. -/
def makeLast (t : FileTree) (p : Path) (keep : Bool) : FileTree × Option Obstacle :=
  match t.makeOne p with
  | .ok t => (t, none)
  | .error .missing => (t, some ⟨.missing, p⟩)
  | .error e =>
    match t.isDirectory p with
    | .ok found => if keep && found then (t, none) else (t, some ⟨e, p⟩)
    | .error o => (t, some o)

/-- Makes the directory of the first parts of a path, and before it those above it if one of them is
missing.  The tree comes back even with an obstacle, since what was made on the way stays. -/
def makeUpTo (t : FileTree) (p : Path) (keep : Bool) : Nat → FileTree × Option Obstacle
  | 0 => t.makeLast (p.upTo 0) keep
  | n + 1 =>
    match t.makeOne (p.upTo (n + 1)) with
    | .error .missing =>
      match t.makeUpTo p true n with
      | (t, none) => t.makeLast (p.upTo (n + 1)) keep
      | failed => failed
    | _ => t.makeLast (p.upTo (n + 1)) keep

/-- Makes a directory and all above it. -/
def makeDirectory (t : FileTree) (p : Path) (keep : Bool) : FileTree × Option Obstacle :=
  t.makeUpTo p keep p.parts.length

/-- Writes a file in a directory that exists. -/
def write (t : FileTree) (p : Path) (octets : List UInt8) : Except Obstacle FileTree :=
  match t.placeOf p with
  | .error e => .error ⟨e, p⟩
  | .ok place =>
    match t.entryAt place with
    | some .directory => .error ⟨.isDirectory, p⟩
    | _ => .ok (t.put place (.file octets))

/-- The URI of a place. -/
def uriOf (place : Place) : String :=
  String.ofList ("file:///".toList ++
    Text.Percent.encode (fun c => Text.Percent.isUnreserved c || c == '/')
      (String.intercalate "/" place).toList)

end FileTree
end Lint
end TalkDeck
