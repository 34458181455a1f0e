import TalkDeck.Text.Blank
import TalkDeck.Text.Newline
import TalkDeck.Text.Split

/-
Files of environment variables: a binding to a line, with comments, quoted values, an optional
`export` in front, and references to other variables.  A line of another shape is skipped.
-/

namespace TalkDeck
namespace EnvFile

open Text

/-- A variable, and its value if it has one. -/
abbrev Binding := String × Option String

/-- Blanks within a line. -/
def isGap (c : Char) : Bool := isBlank c && c != '\n'

def skipGap (cs : List Char) : List Char := cs.dropWhile isGap

def skipLine (cs : List Char) : List Char := (cs.dropWhile (· != '\n')).drop 1

/-- The text after a leading `export`. -/
def dropExport (cs : List Char) : List Char :=
  match strip? "export".toList cs with
  | some (c :: rest) => if isGap c then skipGap rest else cs
  | _ => cs

/-! ### Reading

A reader gives what it read and the rest; a reader that fails gives the rest from which to go on. -/

def isKeyChar (c : Char) : Bool := c != '=' && c != '#' && !isBlank c

/-- A key; a comment has none. -/
def readKey : List Char → Except (List Char) (Option String × List Char)
  | '#' :: cs => .ok (none, '#' :: cs)
  | '\x27' :: cs =>
    let key := cs.takeWhile (· != '\x27')
    match cs.dropWhile (· != '\x27') with
    | _ :: rest => if key.isEmpty then .error ('\x27' :: cs) else .ok (some (String.ofList key), rest)
    | [] => .error ('\x27' :: cs)
  | cs =>
    let key := cs.takeWhile isKeyChar
    if key.isEmpty then .error cs else .ok (some (String.ofList key), cs.dropWhile isKeyChar)

/-- The text up to the closing quote, and what follows the quote.  A backslash takes the character
after it along, so a quote after a backslash does not close. -/
def quoted? (quote : Char) : List Char → Option (List Char × List Char)
  | [] => none
  | ['\\'] => none
  | '\\' :: c :: cs => (quoted? quote cs).map fun (inside, rest) => ('\\' :: c :: inside, rest)
  | c :: cs =>
    if c = quote then some ([], cs)
    else (quoted? quote cs).map fun (inside, rest) => (c :: inside, rest)

/-- The characters that a backslash makes, by the letter after it. -/
def singleEscapes : List (Char × Char) := [('\\', '\\'), ('\x27', '\x27')]

def doubleEscapes : List (Char × Char) :=
  [('\\', '\\'), ('\x27', '\x27'), ('\x22', '\x22'), ('a', '\x07'), ('b', '\x08'), ('f', '\x0c'), ('n', '\n'),
    ('r', '\r'), ('t', '\t'), ('v', '\x0b')]

def unescape (escapes : List (Char × Char)) : List Char → List Char
  | '\\' :: c :: cs =>
    match escapes.lookup c with
    | some e => e :: unescape escapes cs
    | none => '\\' :: unescape escapes (c :: cs)
  | c :: cs => c :: unescape escapes cs
  | [] => []

/-- Whether blanks and then a comment follow. -/
def commentFollows (cs : List Char) : Bool :=
  match cs with
  | c :: _ => isBlank c && (trimLeft cs).head? == some '#'
  | [] => false

/-- The text before a comment. -/
def beforeComment : List Char → List Char
  | [] => []
  | c :: cs => if commentFollows (c :: cs) then [] else c :: beforeComment cs

/-- A value after its equals sign.  The blanks before an unquoted value make a comment of a number
sign that follows them. -/
def readValue (cs : List Char) : Except (List Char) (String × List Char) :=
  match skipGap cs with
  | '\x27' :: more =>
    match quoted? '\x27' more with
    | some (inside, rest) => .ok (String.ofList (unescape singleEscapes inside), rest)
    | none => .error ('\x27' :: more)
  | '\x22' :: more =>
    match quoted? '\x22' more with
    | some (inside, rest) => .ok (String.ofList (unescape doubleEscapes inside), rest)
    | none => .error ('\x22' :: more)
  | _ => .ok (String.ofList (trim (beforeComment (cs.takeWhile (· != '\n')))), cs.dropWhile (· != '\n'))

/-- The rest after the end of a line, where a comment may stand first. -/
def endLine (cs : List Char) : Except (List Char) (List Char) :=
  let rest := match skipGap cs with
    | '#' :: more => more.dropWhile (· != '\n')
    | _ => cs
  match skipGap rest with
  | [] => .ok []
  | '\n' :: more => .ok more
  | _ => .error rest

/-- One binding at the front of a text that does not open with a blank. -/
def readBinding (cs : List Char) : Except (List Char) (Option Binding × List Char) := do
  let (key, rest) ← readKey (dropExport cs)
  let (value, rest) ←
    match skipGap rest with
    | '=' :: more => do
      let (v, rest) ← readValue more
      pure (some v, rest)
    | rest => pure (none, rest)
  let rest ← endLine rest
  return (key.map (·, value), rest)

def readAll : Nat → List Char → List Binding
  | 0, _ => []
  | fuel + 1, cs =>
    match trimLeft cs with
    | [] => []
    | cs =>
      match readBinding cs with
      | .ok (some b, rest) => b :: readAll fuel rest
      | .ok (none, rest) => readAll fuel rest
      | .error rest => readAll fuel (skipLine rest)

/-- A text without the byte order mark at its start. -/
def dropMark : List Char → List Char
  | '\ufeff' :: cs => cs
  | cs => cs

/-- The bindings of a text, in order. -/
def bindings (cs : List Char) : List Binding :=
  let cs := unifyNewlines (dropMark cs)
  readAll (cs.length + 1) cs

/-! ### References -/

/-- A reference after its opening brace: the name, the default, and what follows. -/
def reference? (cs : List Char) : Option (String × Option String × List Char) :=
  let isName (c : Char) : Bool := c != '}' && c != ':'
  let name := String.ofList (cs.takeWhile isName)
  match cs.dropWhile isName with
  | '}' :: rest => some (name, none, rest)
  | ':' :: '-' :: more =>
    match more.dropWhile (· != '}') with
    | _ :: rest => some (name, some (String.ofList (more.takeWhile (· != '}'))), rest)
    | [] => none
  | _ => none

/-- A value with its references replaced. -/
def expand (lookup : String → Option String) : Nat → List Char → List Char
  | 0, cs => cs
  | _, [] => []
  | fuel + 1, c :: cs =>
    match c, cs with
    | '$', '{' :: more =>
      match reference? more with
      | some (name, default, rest) =>
        ((lookup name).getD (default.getD "")).toList ++ expand lookup fuel rest
      | none => c :: expand lookup fuel cs
    | _, _ => c :: expand lookup fuel cs

/-- Binds a variable, in its earlier place if it has one. -/
def put : List Binding → Binding → List Binding
  | [], b => [b]
  | a :: as, b => if a.1 = b.1 then b :: as else a :: put as b

/-- What a name stands for: an earlier binding, or else a variable around.  A binding without a
value stands for the empty text. -/
def meaning (around : List (String × String)) (bound : List Binding) (name : String) : Option String :=
  match bound.lookup name with
  | some v => some (v.getD "")
  | none => around.lookup name

/-- Bindings with their references replaced, each name once. -/
def resolve (around : List (String × String)) (bs : List Binding) : List Binding :=
  bs.foldl (fun bound (name, value) =>
    put bound (name, value.map fun v =>
      String.ofList (expand (meaning around bound) (v.length + 1) v.toList))) []

end EnvFile
end TalkDeck
