import TalkDeck.Json
import TalkDeck.Yaml.Display

/-
What a client hands over in answer to a request.  An object comes as a mapping or, from some
transports, as a record with a field for each name; both may stand anywhere in an answer.
-/

namespace TalkDeck

inductive Payload where
  | null
  | bool (b : Bool)
  | int (i : Int)
  | real (x : Binary64)
  | str (s : String)
  | arr (items : List Payload)
  /-- A mapping.  Its names are distinct. -/
  | obj (members : List (String × Payload))
  | record (name : String) (fields : List (String × Payload))
deriving Repr, Inhabited

namespace Payload

/-- Adds a member to a mapping.  A name that is there already keeps its place. -/
def put : List (String × Payload) → String × Payload → List (String × Payload)
  | [], m => [m]
  | n :: ms, m => if n.1 = m.1 then m :: ms else n :: put ms m

mutual

/-- A JSON value with its objects as mappings.  Of two members with one name the last counts. -/
def ofJson : Json → Payload
  | .null => .null
  | .bool b => .bool b
  | .int i => .int i
  | .real x => .real x
  | .str s => .str s
  | .arr items => .arr (ofItems items)
  | .obj members => .obj ((ofMembers members).foldl put [])

def ofItems : List Json → List Payload
  | [] => []
  | j :: js => ofJson j :: ofItems js

def ofMembers : List (String × Json) → List (String × Payload)
  | [] => []
  | (k, j) :: ms => (k, ofJson j) :: ofMembers ms

end

/-- The members of a mapping, or the fields of a record. -/
def members? : Payload → Option (List (String × Payload))
  | .obj members => some members
  | .record _ fields => some fields
  | _ => none

/-- The member of a name, the last if there were several. -/
def member? (ms : List (String × Payload)) (name : String) : Option Payload := ms.reverse.lookup name

mutual

def tree : Payload → Yaml.Tree
  | .null => .scalar .null
  | .bool b => .scalar (.bool b)
  | .int i => .scalar (.int i)
  | .real x => .scalar (.float x)
  | .str s => .scalar (.str s)
  | .arr items => .list (trees items)
  | .obj members => .map (memberTrees members)
  | .record name fields => .record name (fieldTrees fields)

def trees : List Payload → List Yaml.Tree
  | [] => []
  | p :: ps => tree p :: trees ps

def memberTrees : List (String × Payload) → List (Yaml.Scalar × Yaml.Tree)
  | [] => []
  | (k, p) :: ms => (.str k, tree p) :: memberTrees ms

def fieldTrees : List (String × Payload) → List (String × Yaml.Tree)
  | [] => []
  | (k, p) :: fs => (k, tree p) :: fieldTrees fs

end

/-- The form in which a note shows a value. -/
def text (limits : Limits) (p : Payload) : Except Yaml.NoText String :=
  p.tree.inner [] limits.display

end Payload
end TalkDeck
