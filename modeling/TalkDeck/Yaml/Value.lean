import TalkDeck.Yaml.Node
import TalkDeck.Yaml.Token.Scan

/-
Values: what a representation graph stands for.  A value is a place in a table of cells, so that
sharing and self-containment of the graph carry over; `Value.tree` unfolds it for display.
-/

namespace TalkDeck
namespace Yaml

/-- One value, its parts given by their places. -/
inductive Cell where
  | scalar (s : Scalar)
  | list (items : List Nat)
  /-- An ordered list of pairs. -/
  | pairs (items : List (Nat × Nat))
  | map (entries : List (Scalar × Nat))
  | set (members : List Scalar)
deriving DecidableEq, Repr, Inhabited

/-- A place in a table of cells. -/
structure Value where
  cells : Array Cell
  root : Nat
deriving DecidableEq, Repr, Inhabited

namespace Value

def cell (v : Value) : Cell := v.cells.getD v.root (.scalar .null)

def ofScalar (s : Scalar) : Value := ⟨#[.scalar s], 0⟩

def scalar? (v : Value) : Option Scalar :=
  match v.cell with
  | .scalar s => some s
  | _ => none

def str? (v : Value) : Option String :=
  match v.cell with
  | .scalar (.str s) => some s
  | _ => none

/-- The members of a list; pairs count as members. -/
def items? (v : Value) : Option (List (Option Value)) :=
  match v.cell with
  | .list items => some (items.map fun n => some ⟨v.cells, n⟩)
  | .pairs items => some (items.map fun _ => none)
  | _ => none

def entries? (v : Value) : Option (List (Scalar × Value)) :=
  match v.cell with
  | .map entries => some (entries.map fun (k, n) => (k, ⟨v.cells, n⟩))
  | _ => none

def isMap (v : Value) : Bool := v.entries?.isSome

/-- The value under a key of text. -/
def get? (v : Value) (key : String) : Option Value :=
  v.entries?.bind fun es => (es.find? fun (k, _) => k == .str key).map (·.2)

def has (v : Value) (key : String) : Bool := (v.get? key).isSome

end Value

/-! ### Construction -/

/-- The cells found so far, the graph as merging has left it, and the collections whose members are
still to be constructed. -/
structure Construction where
  nodes : Array Node
  cells : Array (Option Cell)
  queue : List Nat

namespace Construction

def fail {α : Type} (p : Problem) (n : Node) : Except Fault α := .error (.marked p n.mark)

def node (c : Construction) (n : Nat) : Node := c.nodes.getD n ⟨Tag.null, .scalar [], ⟨0, 0, 0⟩⟩

/-- The text of a scalar node; a mapping with a value key stands for that key's value. -/
def textOf (c : Construction) : Nat → Nat → Except Fault (List Char)
  | 0, _ => .error .tooDeep
  | fuel + 1, n =>
    match (c.node n).content with
    | .scalar text => .ok text
    | .sequence _ => fail (.expectedScalarNode .sequence) (c.node n)
    | .mapping pairs =>
      match pairs.find? fun (k, _) => (c.node k).tag == Tag.value with
      | some (_, v) => textOf c fuel v
      | none => fail (.expectedScalarNode .mapping) (c.node n)

/-- The reader for scalars of a tag. -/
def scalarReader? (tag : String) : Option (Node → List Char → Except Fault Scalar) :=
  if tag = Tag.str then some fun _ t => .ok (.str (String.ofList t))
  else if tag = Tag.null then some fun _ _ => .ok .null
  else if tag = Tag.bool then some fun _ t => .bool <$> Scalar.readBool t
  else if tag = Tag.int then some fun _ t => .int <$> Scalar.readInt t
  else if tag = Tag.float then some fun _ t => .float <$> Scalar.readFloat t
  else if tag = Tag.binary then some fun n t =>
    match Scalar.readBinary t with
    | .ok bs => .ok (.bytes bs)
    | .error p => fail p n
  else if tag = Tag.timestamp then some fun n t =>
    match n.content with
    | .scalar _ => Scalar.readTimestamp t
    | _ => .error (.abort .timestampMapping)
  else none

/-- The cell of a collection of a tag, before its members are known. -/
def emptyCell? (tag : String) : Option Cell :=
  if tag = Tag.map then some (.map [])
  else if tag = Tag.seq then some (.list [])
  else if tag = Tag.set then some (.set [])
  else if tag = Tag.omap ∨ tag = Tag.pairs then some (.pairs [])
  else none

def setCell (c : Construction) (n : Nat) (cell : Cell) : Construction :=
  { c with cells := c.cells.set! n (some cell) }

/-- The cell of a node, made now unless it was made before.  Members of a collection wait. -/
def visit (limits : Limits) (c : Construction) (n : Nat) : Except Fault (Cell × Construction) :=
  match c.cells.getD n none with
  | some cell => .ok (cell, c)
  | none =>
    let node := c.node n
    match scalarReader? node.tag with
    | some read => do
      let text ← c.textOf (limits.chain + 1) n
      let s ← read node text
      return (.scalar s, c.setCell n (.scalar s))
    | none =>
      match emptyCell? node.tag with
      | some cell => .ok (cell, { c.setCell n cell with queue := c.queue ++ [n] })
      | none => fail (.unknownTag node.tag) node

def pairsOf (c : Construction) (n : Nat) : List (Nat × Nat) :=
  match (c.node n).content with
  | .mapping pairs => pairs
  | _ => []

def setPairs (c : Construction) (n : Nat) (pairs : List (Nat × Nat)) : Construction :=
  { c with nodes := c.nodes.modify n fun node => { node with content := .mapping pairs } }

def isMerge (c : Construction) (pair : Nat × Nat) : Bool := (c.node pair.1).tag == Tag.merge

def mergeCount (c : Construction) : Nat :=
  (c.nodes.toList.map fun n =>
    match n.content with
    | .mapping pairs => (pairs.filter c.isMerge).length
    | _ => 0).foldl (· + ·) 0

/-- Value keys count as text once their mapping is read as one. -/
def settleValueKeys (c : Construction) (pairs : List (Nat × Nat)) : Construction :=
  let settle (nodes : Array Node) (pair : Nat × Nat) : Array Node :=
    nodes.modify pair.1 fun node => if node.tag = Tag.value then { node with tag := Tag.str } else node
  { c with nodes := pairs.foldl settle c.nodes }

/-- Replaces merge keys by the pairs they stand for, which go in front.  Each round takes one merge
key out of the graph, and no merge key is ever put in.  A merged mapping is flattened before, for
which there is `room` a number of times. -/
def flatten : Nat → Nat → Nat → List (Nat × Nat) → Construction → Except Fault Construction
  | 0, _, _, _, c => .ok c
  | fuel + 1, room, n, merged, c =>
    let pairs := c.pairsOf n
    match pairs.find? c.isMerge with
    | none =>
      let c := c.settleValueKeys pairs
      .ok (if merged.isEmpty then c else c.setPairs n (merged ++ pairs))
    | some pair => do
      let c := c.setPairs n (pairs.erase pair)
      match (c.node pair.2).content with
      | .mapping _ =>
        let c ← (if room = 0 then .error .tooDeep else flatten fuel (room - 1) pair.2 [] c)
        flatten fuel room n (merged ++ c.pairsOf pair.2) c
      | .sequence items =>
        let (c, parts) ← items.foldlM
          (fun (c, parts) item =>
            match (c.node item).content with
            | .mapping _ => do
              let c ← (if room = 0 then .error .tooDeep else flatten fuel (room - 1) item [] c)
              return (c, parts ++ [c.pairsOf item])
            | other => fail (.unmergeableItem other.shape) (c.node item))
          (c, ([] : List (List (Nat × Nat))))
        flatten fuel room n (merged ++ parts.reverse.flatten) c
      | .scalar _ => fail (.unmergeable .scalar) (c.node pair.2)

/-- A key of a mapping: its value and the node it was read from.  What is no number has no node of
its own when it is called by its name, since the name always stands for the same value. -/
structure Key where
  scalar : Scalar
  origin : Option Nat

/-- Whether two keys are one.  A value that is no number is the same key only as itself. -/
def Key.same (a b : Key) : Bool :=
  if a.scalar = .float .nan ∧ b.scalar = .float .nan then a.origin == b.origin
  else a.scalar.sameKey b.scalar

/-- The key that a node stands for, given its value. -/
def keyOf (limits : Limits) (c : Construction) (n : Nat) (s : Scalar) : Key :=
  match c.textOf (limits.chain + 1) n with
  | .ok text => ⟨s, if Scalar.namesNan text then none else some n⟩
  | .error _ => ⟨s, some n⟩

/-- A later entry with the same key replaces the value and keeps the place. -/
def insert (entries : List (Key × Nat)) (k : Key) (v : Nat) : List (Key × Nat) :=
  if entries.any fun (k', _) => k'.same k then
    entries.map fun (k', v') => if k'.same k then (k', v) else (k', v')
  else entries ++ [(k, v)]

/-- Adds one pair to the entries of a mapping.  Only a scalar can be a key. -/
def addEntry (limits : Limits) (found : List (Key × Nat) × Construction) (pair : Nat × Nat) :
    Except Fault (List (Key × Nat) × Construction) := do
  let (cell, c) ← found.2.visit limits pair.1
  match cell with
  | .scalar key =>
    let (_, c) ← c.visit limits pair.2
    return (insert found.1 (c.keyOf limits pair.1 key) pair.2, c)
  | _ => fail .unhashableKey (c.node pair.1)

/-- The entries of a mapping. -/
def entriesOf (limits : Limits) (c : Construction) (n : Nat) :
    Except Fault (List (Scalar × Nat) × Construction) := do
  match (c.node n).content with
  | .mapping _ =>
    let c ← flatten (c.mergeCount + 1) limits.chain n [] c
    let (entries, c) ← (c.pairsOf n).foldlM (addEntry limits) ([], c)
    return (entries.map fun (k, v) => (k.scalar, v), c)
  | other => fail (.expectedMappingNode other.shape) (c.node n)

/-- The pairs of an ordered mapping, each written as a mapping of its own. -/
def orderedOf (limits : Limits) (c : Construction) (n : Nat) :
    Except Fault (List (Nat × Nat) × Construction) :=
  match (c.node n).content with
  | .sequence items =>
    items.foldlM
      (fun (pairs, c) item =>
        match (c.node item).content with
        | .mapping [(k, v)] => do
          let (_, c) ← c.visit limits k
          let (_, c) ← c.visit limits v
          return (pairs ++ [(k, v)], c)
        | .mapping ps => fail (.notSingleton ps.length) (c.node item)
        | other => fail (.expectedSingleton other.shape) (c.node item))
      (([] : List (Nat × Nat)), c)
  | other => fail (.expectedSequence other.shape) (c.node n)

/-- Constructs the members of a collection. -/
def fill (limits : Limits) (c : Construction) (n : Nat) : Except Fault Construction := do
  match c.cells.getD n none with
  | some (.map _) =>
    let (entries, c) ← c.entriesOf limits n
    return c.setCell n (.map entries)
  | some (.set _) =>
    let (entries, c) ← c.entriesOf limits n
    return c.setCell n (.set (entries.map (·.1)))
  | some (.pairs _) =>
    let (pairs, c) ← c.orderedOf limits n
    return c.setCell n (.pairs pairs)
  | some (.list _) =>
    match (c.node n).content with
    | .sequence items =>
      let c ← items.foldlM (fun c item => return (← c.visit limits item).2) c
      return c.setCell n (.list items)
    | other => fail (.expectedSequenceNode other.shape) (c.node n)
  | _ => return c

/-- Fills waiting collections in the order in which they were found.  Each node waits once. -/
def drain (limits : Limits) : Nat → Construction → Except Fault Construction
  | 0, c => .ok c
  | fuel + 1, c =>
    match c.queue with
    | [] => .ok c
    | n :: ns => do drain limits fuel (← { c with queue := ns }.fill limits n)

end Construction

namespace Value

/-- The value of a representation graph. -/
def ofGraph (limits : Limits) (g : Graph) : Except Fault Value := do
  let c : Construction := ⟨g.nodes, g.nodes.map fun _ => none, []⟩
  let (_, c) ← c.visit limits g.root
  let c ← c.drain limits (g.nodes.size + 1)
  return ⟨c.cells.map (·.getD (.scalar .null)), g.root⟩

/-- Whether a character may stand in a markup text. -/
def isAcceptable (c : Char) : Bool :=
  let n := c.toNat
  n == 9 || n == 10 || n == 13 || decide (0x20 ≤ n ∧ n ≤ 0x7E) || n == 0x85 ||
    decide (0xA0 ≤ n ∧ n ≤ 0xD7FF) || decide (0xE000 ≤ n ∧ n ≤ 0xFFFD) || decide (0x10000 ≤ n)

/-- The value of a markup text, or none for a text without a document. -/
def ofText (limits : Limits) (cs : List Char) : Except Fault (Option Value) :=
  match cs.find? (!isAcceptable ·) with
  | some c => .error (.unmarked (.unacceptable c))
  | none => do
    match ← Graph.ofEvents limits (Event.ofTokens (Token.scan cs)) with
    | none => return none
    | some g => return some (← ofGraph limits g)

end Value

/-! ### Display -/

/-- A value unfolded.  `cycle n` stands for the container `n` levels up.  A record is never read from
markup: a client may send one. -/
inductive Tree where
  | scalar (s : Scalar)
  | list (items : List Tree)
  | pair (first second : Tree)
  | map (entries : List (Scalar × Tree))
  | set (members : List Scalar)
  | record (name : String) (fields : List (String × Tree))
  | cycle (up : Nat)
deriving Inhabited

namespace Value

/-- Unfolds a place with the containers around it, innermost first; a pair is a container without a
place. -/
def unfold (cells : Array Cell) : Nat → List (Option Nat) → Nat → Tree
  | 0, _, _ => .cycle 0
  | fuel + 1, path, n =>
    match path.findIdx? (· == some n) with
    | some up => .cycle (up + 1)
    | none =>
      match cells.getD n (.scalar .null) with
      | .scalar s => .scalar s
      | .list items => .list (items.map (unfold cells fuel (some n :: path)))
      | .pairs items =>
        .list (items.map fun (k, v) =>
          .pair (unfold cells fuel (none :: some n :: path) k)
            (unfold cells fuel (none :: some n :: path) v))
      | .map entries => .map (entries.map fun (k, v) => (k, unfold cells fuel (some n :: path) v))
      | .set members => .set members

/-- The tree of a value.  A path through it meets each container at most once. -/
def tree (v : Value) : Tree := unfold v.cells (v.cells.size + 1) [] v.root

/-- Adds the cells of a tree to a table and yields its place.  A record is put down as the
mapping of its fields. -/
def intern : Nat → Tree → Array Cell → Nat × Array Cell
  | 0, _, cells => (cells.size, cells.push (.scalar .null))
  | fuel + 1, t, cells =>
    match t with
    | .scalar s => (cells.size, cells.push (.scalar s))
    | .list items =>
      let (ns, cells) := items.foldl
        (fun (ns, cells) t => let (n, cells) := intern fuel t cells; (ns ++ [n], cells))
        (([] : List Nat), cells)
      (cells.size, cells.push (.list ns))
    | .pair a b =>
      let (m, cells) := intern fuel a cells
      let (n, cells) := intern fuel b cells
      (cells.size, cells.push (.pairs [(m, n)]))
    | .map entries =>
      let (es, cells) := entries.foldl
        (fun (es, cells) (k, t) => let (n, cells) := intern fuel t cells; (es ++ [(k, n)], cells))
        (([] : List (Scalar × Nat)), cells)
      (cells.size, cells.push (.map es))
    | .set members => (cells.size, cells.push (.set members))
    | .record _ fields => intern fuel (.map (fields.map fun (k, t) => (.str k, t))) cells
    | .cycle _ => (cells.size, cells.push (.scalar .null))

/-- The value of a tree that nests less deep than `depth`. -/
def ofTree (depth : Nat) (t : Tree) : Value :=
  let (n, cells) := intern depth t #[]
  ⟨cells, n⟩

end Value
end Yaml
end TalkDeck
