import TalkDeck.Yaml.Token

/-
From tokens to events: the starts and ends of documents and collections, the scalars and the
aliases, in the order of the text.  What is expected next is a stack of states, so that nesting
costs no recursion.
-/

namespace TalkDeck
namespace Yaml

namespace Event

inductive Kind where
  | streamStart
  | streamEnd
  | documentStart
  | documentEnd
  | alias (name : String)
  /-- `implicit` says that the text itself may decide on the tag. -/
  | scalar (anchor tag : Option String) (implicit : Bool) (text : List Char)
  | sequenceStart (anchor tag : Option String)
  | sequenceEnd
  | mappingStart (anchor tag : Option String)
  | mappingEnd
deriving DecidableEq, Repr

end Event

structure Event where
  kind : Event.Kind
  start : Mark
deriving DecidableEq, Repr

namespace Event

/-- What the parser expects next. -/
inductive State where
  | streamStart
  | implicitDocumentStart
  | documentStart
  | documentContent
  | documentEnd
  | blockNode
  | blockEntryFirst
  | blockEntry
  | indentlessEntry
  | blockKeyFirst
  | blockKey
  | blockValue
  | flowEntryFirst
  | flowEntry
  | flowPairKey
  | flowPairValue
  | flowPairEnd
  | flowKeyFirst
  | flowKey
  | flowValue
  | flowEmptyValue
  | done
deriving DecidableEq, Repr

structure Parser where
  tokens : List Token
  fault : Option Fault
  state : State
  states : List State
  handles : List (String × String)

namespace Parser

def standardHandles : List (String × String) := [("!", "!"), ("!!", "tag:yaml.org,2002:")]

/-- The next token; once they have run out, the fault that ended them. -/
def peek (p : Parser) : Except Fault Token :=
  match p.tokens, p.fault with
  | t :: _, _ => .ok t
  | [], some f => .error f
  | [], none => .ok ⟨.streamEnd, ⟨0, 0, 0⟩, ⟨0, 0, 0⟩⟩

def advance (p : Parser) : Parser := { p with tokens := p.tokens.tail }

def goto (p : Parser) (s : State) : Parser := { p with state := s }

def call (p : Parser) (s : State) : Parser := { p with states := s :: p.states }

def ret (p : Parser) : Parser :=
  match p.states with
  | [] => { p with state := .done }
  | s :: ss => { p with state := s, states := ss }

abbrev Step := Except Fault (Event × Parser)

/-- A scalar that is not there. -/
def empty (mark : Mark) (p : Parser) : Step := .ok (⟨.scalar none none true [], mark⟩, p)

def failAt {α : Type} (problem : Problem) (t : Token) : Except Fault α :=
  .error (.marked problem t.start)

/-- What stands before a node's content: an anchor and a tag in either order, the mark of the first
and the mark of the tag. -/
structure Properties where
  anchor : Option String
  tag : Option RawTag
  start : Option Mark
  tagMark : Option Mark

def properties (p : Parser) : Except Fault (Properties × Parser) := do
  let t ← p.peek
  match t.kind with
  | .anchor a =>
    let p := p.advance
    let u ← p.peek
    match u.kind with
    | .tag g => return (⟨some a, some g, some t.start, some u.start⟩, p.advance)
    | _ => return (⟨some a, none, some t.start, none⟩, p)
  | .tag g =>
    let p := p.advance
    let u ← p.peek
    match u.kind with
    | .anchor a => return (⟨some a, some g, some t.start, some t.start⟩, p.advance)
    | _ => return (⟨none, some g, some t.start, some t.start⟩, p)
  | _ => return (⟨none, none, none, none⟩, p)

/-- A tag in full. -/
def resolveTag (p : Parser) (q : Properties) : Except Fault (Option String) :=
  match q.tag with
  | none => .ok none
  | some ⟨none, suffix⟩ => .ok (some suffix)
  | some ⟨some h, suffix⟩ =>
    match p.handles.lookup h with
    | some lead => .ok (some (lead ++ suffix))
    | none => .error (.marked (.undefinedHandle h) (q.tagMark.getD ⟨0, 0, 0⟩))

/-- A node.  Block collections need `block`; `indentless` admits a sequence that stands no further
in than its key. -/
def node (block indentless : Bool) (p : Parser) : Step := do
  let t ← p.peek
  match t.kind with
  | .alias a => return (⟨.alias a, t.start⟩, p.advance.ret)
  | _ =>
    let (q, p) ← p.properties
    let tag ← p.resolveTag q
    let t ← p.peek
    let start := q.start.getD t.start
    let implicit := tag.isNone || tag == some "!"
    let open_ (k : Kind) (s : State) : Step := .ok (⟨k, start⟩, p.goto s)
    match t.kind with
    | .scalar text plain =>
      return (⟨.scalar q.anchor tag ((plain && tag.isNone) || tag == some "!") text, start⟩,
        p.advance.ret)
    | .flowSequenceStart => open_ (.sequenceStart q.anchor tag) .flowEntryFirst
    | .flowMappingStart => open_ (.mappingStart q.anchor tag) .flowKeyFirst
    | k =>
      if indentless && k == .blockEntry then open_ (.sequenceStart q.anchor tag) .indentlessEntry
      else if block && k == .blockSequenceStart then
        open_ (.sequenceStart q.anchor tag) .blockEntryFirst
      else if block && k == .blockMappingStart then open_ (.mappingStart q.anchor tag) .blockKeyFirst
      else if q.anchor.isSome || tag.isSome then
        return (⟨.scalar q.anchor tag implicit [], start⟩, p.ret)
      else failAt (.expectedContent k.name) t

/-- Reads the directives before a document.  Handles not given keep their standard meaning. -/
def directives : Nat → Bool → List (String × String) → Parser →
    Except Fault (List (String × String) × Parser)
  | 0, _, handles, p => .ok (handles, p)
  | fuel + 1, versioned, handles, p => do
    let t ← p.peek
    match t.kind with
    | .directive (.version major _) =>
      if versioned then failAt .repeatedVersion t
      else if major ≠ 1 then failAt .foreignVersion t
      else directives fuel true handles p.advance
    | .directive (.tag h lead) =>
      if (handles.lookup h).isSome then failAt (.repeatedHandle h) t
      else directives fuel versioned (handles ++ [(h, lead)]) p.advance
    | .directive .other => directives fuel versioned handles p.advance
    | _ =>
      return (handles ++ standardHandles.filter fun (h, _) => (handles.lookup h).isNone, p)

def dropDocumentEnds : Nat → Parser → Except Fault Parser
  | 0, p => .ok p
  | fuel + 1, p => do
    let t ← p.peek
    if t.kind == .documentEnd then dropDocumentEnds fuel p.advance else return p

def documentStart (p : Parser) : Step := do
  let p ← dropDocumentEnds (p.tokens.length + 1) p
  let t ← p.peek
  if t.kind == .streamEnd then return (⟨.streamEnd, t.start⟩, p.advance.goto .done)
  else
    let (handles, p) ← directives (p.tokens.length + 1) false [] p
    let u ← p.peek
    if u.kind == .documentStart then
      return (⟨.documentStart, t.start⟩,
        { p.advance with handles, states := .documentEnd :: p.states, state := .documentContent })
    failAt (.expectedDocumentStart u.kind.name) u

/-- The content after an entry's or key's sign, or an empty scalar before the kinds in `ends`. -/
def content (ends : List Token.Kind) (next : State) (read : Parser → Step) (sign : Token) (p : Parser) :
    Step := do
  let t ← p.peek
  if ends.contains t.kind then empty sign.stop (p.goto next) else read (p.call next)

def blockEntry (p : Parser) : Step := do
  let t ← p.peek
  match t.kind with
  | .blockEntry => p.advance.content [.blockEntry, .blockEnd] .blockEntry (node true false) t
  | .blockEnd => return (⟨.sequenceEnd, t.start⟩, p.advance.ret)
  | k => failAt (.expectedBlockEnd k.name) t

def indentlessEntry (p : Parser) : Step := do
  let t ← p.peek
  match t.kind with
  | .blockEntry =>
    p.advance.content [.blockEntry, .key, .value, .blockEnd] .indentlessEntry (node true false) t
  | _ => return (⟨.sequenceEnd, t.start⟩, p.ret)

def blockKey (p : Parser) : Step := do
  let t ← p.peek
  match t.kind with
  | .key => p.advance.content [.key, .value, .blockEnd] .blockValue (node true true) t
  | .blockEnd => return (⟨.mappingEnd, t.start⟩, p.advance.ret)
  | k => failAt (.expectedBlockEnd k.name) t

def blockValue (p : Parser) : Step := do
  let t ← p.peek
  match t.kind with
  | .value => p.advance.content [.key, .value, .blockEnd] .blockKey (node true true) t
  | _ => empty t.start (p.goto .blockKey)

/-- An entry of a flow sequence that is not the end; a key there opens a mapping of one pair. -/
def flowItem (p : Parser) : Step := do
  let t ← p.peek
  match t.kind with
  | .key => return (⟨.mappingStart none none, t.start⟩, p.goto .flowPairKey)
  | .flowSequenceEnd => return (⟨.sequenceEnd, t.start⟩, p.advance.ret)
  | _ => node false false (p.call .flowEntry)

def flowEntry (first : Bool) (p : Parser) : Step := do
  let t ← p.peek
  match t.kind with
  | .flowSequenceEnd => return (⟨.sequenceEnd, t.start⟩, p.advance.ret)
  | .flowEntry => if first then flowItem p else flowItem p.advance
  | k => if first then flowItem p else failAt (.expectedCommaOrBracket k.name) t

def flowPairKey (p : Parser) : Step := do
  let t ← p.peek
  p.advance.content [.value, .flowEntry, .flowSequenceEnd] .flowPairValue (node false false) t

def flowPairValue (p : Parser) : Step := do
  let t ← p.peek
  match t.kind with
  | .value => p.advance.content [.flowEntry, .flowSequenceEnd] .flowPairEnd (node false false) t
  | _ => empty t.start (p.goto .flowPairEnd)

def flowPairEnd (p : Parser) : Step := do
  let t ← p.peek
  return (⟨.mappingEnd, t.start⟩, p.goto .flowEntry)

/-- A key of a flow mapping that is not the end; a node there is a key without a value. -/
def flowMember (p : Parser) : Step := do
  let t ← p.peek
  match t.kind with
  | .key => p.advance.content [.value, .flowEntry, .flowMappingEnd] .flowValue (node false false) t
  | .flowMappingEnd => return (⟨.mappingEnd, t.start⟩, p.advance.ret)
  | _ => node false false (p.call .flowEmptyValue)

def flowKey (first : Bool) (p : Parser) : Step := do
  let t ← p.peek
  match t.kind with
  | .flowMappingEnd => return (⟨.mappingEnd, t.start⟩, p.advance.ret)
  | .flowEntry => if first then flowMember p else flowMember p.advance
  | k => if first then flowMember p else failAt (.expectedCommaOrBrace k.name) t

def flowValue (p : Parser) : Step := do
  let t ← p.peek
  match t.kind with
  | .value => p.advance.content [.flowEntry, .flowMappingEnd] .flowKey (node false false) t
  | _ => empty t.start (p.goto .flowKey)

/-- The next event. -/
def step (p : Parser) : Step :=
  match p.state with
  | .streamStart => do
    let t ← p.peek
    return (⟨.streamStart, t.start⟩, p.advance.goto .implicitDocumentStart)
  | .implicitDocumentStart => do
    let t ← p.peek
    match t.kind with
    | .directive _ | .documentStart | .streamEnd => documentStart p
    | _ =>
      return (⟨.documentStart, t.start⟩,
        { p with handles := standardHandles, states := .documentEnd :: p.states, state := .blockNode })
  | .documentStart => documentStart p
  | .documentContent => do
    let t ← p.peek
    match t.kind with
    | .directive _ | .documentStart | .documentEnd | .streamEnd => empty t.start p.ret
    | _ => node true false p
  | .documentEnd => do
    let t ← p.peek
    let p := if t.kind == .documentEnd then p.advance else p
    return (⟨.documentEnd, t.start⟩, p.goto .documentStart)
  | .blockNode => node true false p
  | .blockEntryFirst => blockEntry p.advance
  | .blockEntry => blockEntry p
  | .indentlessEntry => indentlessEntry p
  | .blockKeyFirst => blockKey p.advance
  | .blockKey => blockKey p
  | .blockValue => blockValue p
  | .flowEntryFirst => flowEntry true p.advance
  | .flowEntry => flowEntry false p
  | .flowPairKey => flowPairKey p
  | .flowPairValue => flowPairValue p
  | .flowPairEnd => flowPairEnd p
  | .flowKeyFirst => flowKey true p.advance
  | .flowKey => flowKey false p
  | .flowValue => flowValue p
  | .flowEmptyValue => do
    let t ← p.peek
    empty t.start (p.goto .flowKey)
  | .done => .ok (⟨.streamEnd, ⟨0, 0, 0⟩⟩, p)

def run : Nat → Parser → List Event → Feed Event
  | 0, _, done => ⟨done.reverse, none⟩
  | fuel + 1, p, done =>
    if p.state = .done then ⟨done.reverse, none⟩
    else
      match p.step with
      | .error f => ⟨done.reverse, some f⟩
      | .ok (e, p) => run fuel p (e :: done)

end Parser

/-- The events of a feed of tokens.  A token gives at most three events of its own and one empty
scalar. -/
def ofTokens (f : Feed Token) : Feed Event :=
  Parser.run (4 * f.items.length + 16) ⟨f.items, f.fault, .streamStart, [], Parser.standardHandles⟩ []

end Event
end Yaml
end TalkDeck
