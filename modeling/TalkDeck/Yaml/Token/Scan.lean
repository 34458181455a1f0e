import TalkDeck.Yaml.Token.Block
import TalkDeck.Yaml.Token.Plain
import TalkDeck.Yaml.Token.Quote

/-
From a text to its tokens.  Whether a token opens a mapping key is known only when a colon follows
on the same line, so tokens wait in a queue while they may still turn out to be keys; a fault met
while they wait comes before them.
-/

namespace TalkDeck
namespace Yaml

/-- A token that may still turn out to open a key. -/
structure PendingKey where
  /-- The number of the token among all tokens. -/
  number : Nat
  /-- Nothing but a key can stand here. -/
  required : Bool
  mark : Mark
deriving DecidableEq, Repr

structure Scanner where
  cursor : Cursor
  /-- How many brackets and braces are open. -/
  flow : Int
  /-- The column of the innermost block collection, and those of the blocks around it. -/
  indent : Int
  indents : List Int
  /-- Whether a key may begin here. -/
  keyAllowed : Bool
  /-- Pending keys by flow level, at most one for each. -/
  pending : List (Int × PendingKey)
  /-- Tokens found and not yet delivered, and the number of those delivered. -/
  queue : List Token
  delivered : Nat
  finished : Bool

namespace Scanner

open Token

def start (cs : List Char) : Scanner :=
  let c := Cursor.ofText cs
  ⟨c, 0, -1, [], true, [], [⟨.streamStart, c.mark, c.mark⟩], 0, false⟩

def inFlow (s : Scanner) : Bool := s.flow != 0

def push (s : Scanner) (t : Token) : Scanner := { s with queue := s.queue ++ [t] }

/-- A token without extent at the place reached. -/
def pushHere (s : Scanner) (k : Token.Kind) : Scanner := s.push ⟨k, s.cursor.mark, s.cursor.mark⟩

/-- The next `n` characters as a token. -/
def pushSign (s : Scanner) (k : Token.Kind) (n : Nat) : Scanner :=
  let d := s.cursor.skip n
  { s.push ⟨k, s.cursor.mark, d.mark⟩ with cursor := d }

def isStale (c : Cursor) (k : PendingKey) : Bool :=
  k.mark.line != c.mark.line || decide (1024 < c.mark.index - k.mark.index)

/-- Gives up the pending keys on other lines or too far back. -/
def dropStale (s : Scanner) : Except Fault Scanner :=
  if s.pending.any fun (_, k) => isStale s.cursor k && k.required then
    fail .keyWithoutColon s.cursor
  else .ok { s with pending := s.pending.filter fun (_, k) => !isStale s.cursor k }

/-- Gives up the pending key of the flow level reached. -/
def dropPending (s : Scanner) : Except Fault Scanner :=
  match s.pending.lookup s.flow with
  | none => .ok s
  | some k =>
    if k.required then fail .keyWithoutColon s.cursor
    else .ok { s with pending := s.pending.filter fun (level, _) => level != s.flow }

/-- Notes that the token to come may open a key. -/
def notePending (s : Scanner) : Except Fault Scanner :=
  if s.keyAllowed then do
    let required := !s.inFlow && s.indent == s.cursor.column
    let s' ← s.dropPending
    let k : PendingKey := ⟨s.delivered + s.queue.length, required, s.cursor.mark⟩
    return { s' with pending := s'.pending ++ [(s.flow, k)] }
  else .ok s

/-- Closes the blocks that stand further in than `column`. -/
def unwindLoop (column : Int) : Nat → Scanner → Scanner
  | 0, s => s
  | fuel + 1, s =>
    if column < s.indent then
      unwindLoop column fuel
        { s.pushHere .blockEnd with indent := s.indents.headD (-1), indents := s.indents.tail }
    else s

def unwind (column : Int) (s : Scanner) : Scanner :=
  if s.inFlow then s else unwindLoop column (s.indents.length + 1) s

/-- Opens a block at `column`, unless one stands there or further in. -/
def widen (column : Int) (s : Scanner) : Bool × Scanner :=
  if s.indent < column then (true, { s with indent := column, indents := s.indent :: s.indents })
  else (false, s)

/-- Past spaces, comments and line ends.  Outside flow a line end allows a key again. -/
def skipLoop : Nat → Scanner → Scanner
  | 0, s => s
  | fuel + 1, s =>
    let (b, d) := s.cursor.dropSpaces.dropComment.lineBreak
    if b.isEmpty then { s with cursor := d }
    else skipLoop fuel { s with cursor := d, keyAllowed := s.keyAllowed || !s.inFlow }

def skipToToken (s : Scanner) : Scanner :=
  let c := s.cursor
  let c := if c.mark.index = 0 ∧ c.peek.toNat = 0xFEFF then c.next else c
  skipLoop (c.rest.length + 1) { s with cursor := c }

def scanEnd (s : Scanner) : Except Fault Scanner := do
  let s ← (s.unwind (-1)).dropPending
  return { s.pushHere .streamEnd with keyAllowed := false, pending := [], finished := true }

def scanDirective (s : Scanner) : Except Fault Scanner := do
  let s ← (s.unwind (-1)).dropPending
  let (d, stop, c) ← readDirective s.cursor
  return { s.push ⟨.directive d, s.cursor.mark, stop⟩ with cursor := c, keyAllowed := false }

def scanSeparator (k : Token.Kind) (s : Scanner) : Except Fault Scanner := do
  let s ← (s.unwind (-1)).dropPending
  return { s.pushSign k 3 with keyAllowed := false }

def scanFlowStart (k : Token.Kind) (s : Scanner) : Except Fault Scanner := do
  let s ← s.notePending
  return { s.pushSign k 1 with flow := s.flow + 1, keyAllowed := true }

def scanFlowEnd (k : Token.Kind) (s : Scanner) : Except Fault Scanner := do
  let s ← s.dropPending
  return { s.pushSign k 1 with flow := s.flow - 1, keyAllowed := false }

def scanFlowEntry (s : Scanner) : Except Fault Scanner := do
  let s ← s.dropPending
  return { s.pushSign .flowEntry 1 with keyAllowed := true }

/-- Opens a block at the place reached, if that is further in. -/
def openBlock (k : Token.Kind) (s : Scanner) : Scanner :=
  let (opened, s) := s.widen s.cursor.column
  if opened then s.pushHere k else s

def scanBlockEntry (s : Scanner) : Except Fault Scanner := do
  if !s.inFlow && !s.keyAllowed then fail .entryNotAllowed s.cursor
  else
    let s := if s.inFlow then s else s.openBlock .blockSequenceStart
    let s ← s.dropPending
    return { s.pushSign .blockEntry 1 with keyAllowed := true }

def scanKey (s : Scanner) : Except Fault Scanner := do
  if !s.inFlow && !s.keyAllowed then fail .keyNotAllowed s.cursor
  else
    let s := if s.inFlow then s else s.openBlock .blockMappingStart
    let s ← s.dropPending
    return { s.pushSign .key 1 with keyAllowed := !s.inFlow }

/-- A colon.  With a key pending, the key token and perhaps the start of its mapping go before the
token that was waiting. -/
def scanValue (s : Scanner) : Except Fault Scanner :=
  match s.pending.lookup s.flow with
  | some k =>
    let place := k.number - s.delivered
    let (opened, s') := if s.inFlow then (false, s) else s.widen k.mark.column
    let found :=
      (if opened then [(⟨.blockMappingStart, k.mark, k.mark⟩ : Token)] else []) ++
        [⟨.key, k.mark, k.mark⟩]
    let s' := { s' with
      pending := s.pending.filter fun (level, _) => level != s.flow
      queue := s.queue.take place ++ found ++ s.queue.drop place
      keyAllowed := false }
    .ok (s'.pushSign .value 1)
  | none =>
    if !s.inFlow && !s.keyAllowed then fail .valueNotAllowed s.cursor
    else do
      let s := if s.inFlow then s else s.openBlock .blockMappingStart
      let s ← { s with keyAllowed := !s.inFlow }.dropPending
      return s.pushSign .value 1

def scanNamed (k : String → Token.Kind) (s : Scanner) : Except Fault Scanner := do
  let s ← s.notePending
  let (name, c) ← readAnchor s.cursor
  return { s.push ⟨k name, s.cursor.mark, c.mark⟩ with cursor := c, keyAllowed := false }

def scanTag (s : Scanner) : Except Fault Scanner := do
  let s ← s.notePending
  let (tag, c) ← readTag s.cursor
  return { s.push ⟨.tag tag, s.cursor.mark, c.mark⟩ with cursor := c, keyAllowed := false }

def scanBlock (folded : Bool) (s : Scanner) : Except Fault Scanner := do
  let s ← s.dropPending
  let (text, stop, c) ← readBlock folded s.indent s.cursor
  return { s.push ⟨.scalar text false, s.cursor.mark, stop⟩ with cursor := c, keyAllowed := true }

def scanQuoted (double : Bool) (s : Scanner) : Except Fault Scanner := do
  let s ← s.notePending
  let (text, c) ← readQuoted double s.cursor
  return { s.push ⟨.scalar text false, s.cursor.mark, c.mark⟩ with cursor := c, keyAllowed := false }

def scanPlain (s : Scanner) : Except Fault Scanner := do
  let s ← s.notePending
  let p := readPlain s.inFlow s.indent s.cursor
  return { s.push ⟨.scalar p.text true, s.cursor.mark, p.stop⟩ with
    cursor := p.cursor, keyAllowed := p.lineEnded }

/-- Signs that cannot open plain text, whatever follows. -/
def isIndicator (c : Char) : Bool :=
  isWideGap c ||
    ['-', '?', ':', ',', '[', ']', '{', '}', '#', '&', '*', '!', '|', '>', '\x27', '\x22', '%', '@',
      Char.ofNat 0x60].contains c

def opensPlain (inFlow : Bool) (c next : Char) : Bool :=
  !isIndicator c || (!isWideGap next && (c == '-' || (!inFlow && (c == '?' || c == ':'))))

/-- The token at the place reached, told by its first characters. -/
def scanToken (s : Scanner) : Except Fault Scanner :=
  let c := s.cursor
  let ch := c.peek
  let gapNext := isWideGap (c.peekAt 1)
  if ch == nul then s.scanEnd
  else if ch == '%' && c.column == 0 then s.scanDirective
  else if ch == '-' && c.column == 0 && c.atSeparator then s.scanSeparator .documentStart
  else if ch == '.' && c.column == 0 && c.atSeparator then s.scanSeparator .documentEnd
  else if ch == '[' then s.scanFlowStart .flowSequenceStart
  else if ch == '{' then s.scanFlowStart .flowMappingStart
  else if ch == ']' then s.scanFlowEnd .flowSequenceEnd
  else if ch == '}' then s.scanFlowEnd .flowMappingEnd
  else if ch == ',' then s.scanFlowEntry
  else if ch == '-' && gapNext then s.scanBlockEntry
  else if ch == '?' && (s.inFlow || gapNext) then s.scanKey
  else if ch == ':' && (s.inFlow || gapNext) then s.scanValue
  else if ch == '*' then s.scanNamed .alias
  else if ch == '&' then s.scanNamed .anchor
  else if ch == '!' then s.scanTag
  else if ch == '|' && !s.inFlow then s.scanBlock false
  else if ch == '>' && !s.inFlow then s.scanBlock true
  else if ch == '\x27' then s.scanQuoted false
  else if ch == '\x22' then s.scanQuoted true
  else if opensPlain s.inFlow ch (c.peekAt 1) then s.scanPlain
  else fail (.noTokenStart ch) c

/-- Finds the next token, and with it the ends of blocks before it. -/
def fetch (s : Scanner) : Except Fault Scanner := do
  let s ← s.skipToToken.dropStale
  (s.unwind s.cursor.column).scanToken

/-- Whether the first waiting token cannot be delivered yet. -/
def mustFetch (s : Scanner) : Except Fault (Bool × Scanner) :=
  if s.finished then .ok (false, s)
  else if s.queue.isEmpty then .ok (true, s)
  else do
    let s ← s.dropStale
    return (s.pending.any fun (_, k) => k.number == s.delivered, s)

/-- Delivers tokens, newest first onto `done`. -/
def run : Nat → Scanner → List Token → Feed Token
  | 0, _, done => ⟨done.reverse, none⟩
  | fuel + 1, s, done =>
    match s.mustFetch with
    | .error f => ⟨done.reverse, some f⟩
    | .ok (true, s) =>
      match s.fetch with
      | .error f => ⟨done.reverse, some f⟩
      | .ok s => run fuel s done
    | .ok (false, s) =>
      match s.queue with
      | [] => ⟨done.reverse, none⟩
      | t :: ts => run fuel { s with queue := ts, delivered := s.delivered + 1 } (t :: done)

theorem run_succ (fuel : Nat) (s : Scanner) (done : List Token) :
    run (fuel + 1) s done =
      match s.mustFetch with
      | .error f => ⟨done.reverse, some f⟩
      | .ok (true, s) =>
        match s.fetch with
        | .error f => ⟨done.reverse, some f⟩
        | .ok s => run fuel s done
      | .ok (false, s) =>
        match s.queue with
        | [] => ⟨done.reverse, none⟩
        | t :: ts => run fuel { s with queue := ts, delivered := s.delivered + 1 } (t :: done) := by
  rfl

end Scanner

/-- The tokens of a text.  Each character gives at most one fetch, and each fetch at most four
tokens besides the block ends, of which there are no more than block starts. -/
def Token.scan (cs : List Char) : Feed Token :=
  Scanner.run (8 * cs.length + 32) (Scanner.start cs) []

end Yaml
end TalkDeck
