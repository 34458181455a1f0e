import TalkDeck.Limits
import TalkDeck.Yaml.Event
import TalkDeck.Yaml.Scalar

/-
From events to the representation graph.  Every node has a number; an alias repeats the number of
the node its anchor names, so a collection may contain itself.
-/

namespace TalkDeck
namespace Yaml

inductive Content where
  | scalar (text : List Char)
  | sequence (items : List Nat)
  | mapping (pairs : List (Nat × Nat))
deriving DecidableEq, Repr, Inhabited

def Content.shape : Content → Shape
  | .scalar _ => .scalar
  | .sequence _ => .sequence
  | .mapping _ => .mapping

structure Node where
  tag : String
  content : Content
  mark : Mark
deriving DecidableEq, Repr, Inhabited

/-- The nodes by number. -/
structure Graph where
  nodes : Array Node
  root : Nat

namespace Graph

/-- A collection whose end has not come yet: its number, and its members newest first. -/
inductive Frame where
  | sequence (node : Nat) (items : List Nat)
  | mapping (node : Nat) (pairs : List (Nat × Nat)) (key : Option Nat)

structure Builder where
  nodes : Array Node
  anchors : List (String × Nat)
  frames : List Frame
  /-- The root of the document, once it is complete. -/
  root : Option Nat

namespace Builder

def empty : Builder := ⟨#[], [], [], none⟩

/-- Puts a complete node into the collection around it. -/
def attach (b : Builder) (n : Nat) : Builder :=
  match b.frames with
  | [] => { b with root := some n }
  | .sequence id items :: fs => { b with frames := .sequence id (n :: items) :: fs }
  | .mapping id pairs none :: fs => { b with frames := .mapping id pairs (some n) :: fs }
  | .mapping id pairs (some k) :: fs => { b with frames := .mapping id ((k, n) :: pairs) none :: fs }

/-- Adds a node and gives its number to the anchor.  An anchor names one node only. -/
def add (b : Builder) (anchor : Option String) (node : Node) : Except Fault (Nat × Builder) :=
  let n := b.nodes.size
  match anchor with
  | none => .ok (n, { b with nodes := b.nodes.push node })
  | some a =>
    if (b.anchors.lookup a).isSome then .error (.marked .repeatedAnchor node.mark)
    else .ok (n, { b with nodes := b.nodes.push node, anchors := (a, n) :: b.anchors })

def setContent (b : Builder) (n : Nat) (content : Content) : Builder :=
  { b with nodes := b.nodes.modify n fun node => { node with content } }

/-- The tag of a node that names none, or only asks not to be taken by its form. -/
def tagOr (tag : Option String) (default : String) : String :=
  match tag with
  | none => default
  | some t => if t = "!" then default else t

def openFrame (limits : Limits) (b : Builder) (frame : Nat → Frame) (anchor : Option String)
    (node : Node) : Except Fault Builder :=
  if limits.nesting ≤ b.frames.length then .error .tooDeep
  else do
    let (n, b) ← b.add anchor node
    return { b with frames := frame n :: b.frames }

/-- One event inside a document. -/
def event (limits : Limits) (b : Builder) (e : Event) : Except Fault Builder :=
  match e.kind with
  | .alias a =>
    match b.anchors.lookup a with
    | some n => .ok (b.attach n)
    | none => .error (.marked (.undefinedAlias a) e.start)
  | .scalar anchor tag implicit text => do
    let tag := tagOr tag (if implicit then Scalar.tagOf text else Tag.str)
    let (n, b) ← b.add anchor ⟨tag, .scalar text, e.start⟩
    return b.attach n
  | .sequenceStart anchor tag =>
    b.openFrame limits (.sequence · []) anchor ⟨tagOr tag Tag.seq, .sequence [], e.start⟩
  | .mappingStart anchor tag =>
    b.openFrame limits (.mapping · [] none) anchor ⟨tagOr tag Tag.map, .mapping [], e.start⟩
  | .sequenceEnd | .mappingEnd =>
    match b.frames with
    | .sequence n items :: fs =>
      .ok ({ b with frames := fs }.setContent n (.sequence items.reverse) |>.attach n)
    | .mapping n pairs _ :: fs =>
      .ok ({ b with frames := fs }.setContent n (.mapping pairs.reverse) |>.attach n)
    | [] => .ok b
  | _ => .ok b

end Builder

/-- Reads the events up to the end of the stream.  The stream may hold one document or none. -/
def build (limits : Limits) (fault : Option Fault) : Builder → List Event → Except Fault (Option Graph)
  | b, [] =>
    match fault with
    | some f => .error f
    | none => .ok (b.root.map fun r => ⟨b.nodes, r⟩)
  | b, e :: es =>
    match e.kind with
    | .streamEnd => .ok (b.root.map fun r => ⟨b.nodes, r⟩)
    | .documentStart =>
      if b.root.isSome then .error (.marked .secondDocument e.start) else build limits fault b es
    | .streamStart | .documentEnd => build limits fault b es
    | _ =>
      match b.event limits e with
      | .ok b => build limits fault b es
      | .error f => .error f

def ofEvents (limits : Limits) (f : Feed Event) : Except Fault (Option Graph) :=
  build limits f.fault Builder.empty f.items

end Graph
end Yaml
end TalkDeck
