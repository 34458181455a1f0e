import TalkDeck.Command.Basic
import TalkDeck.Text.Split

/-
Reading the arguments of a command.  Long options may be shortened to any unambiguous beginning and
take a value after an equals sign; short options may be run together.  After two dashes everything
is positional, and two more of them are dropped.
-/

namespace TalkDeck

/-- An argument by its role. -/
inductive Argument where
  | plain (text : String)
  | dashes
  /-- An option with the name it was recognised by and the value attached to it. -/
  | option (o : OptionSpec) (name : String) (value : Option String)
  | unknown (text : String)
deriving DecidableEq, Repr

namespace Argument

def text : Argument → String
  | plain text => text
  | dashes => "--"
  | option _ name _ => name
  | unknown text => text

/-- Whether the argument looks like an option. -/
def isOption : Argument → Bool
  | option .. => true
  | unknown _ => true
  | _ => false

end Argument

namespace Command

open Text

/-- The two sides of the first equals sign. -/
def cut? (cs : List Char) : Option (String × String) :=
  match cs.dropWhile (· != '=') with
  | _ :: value => some (String.ofList (cs.takeWhile (· != '=')), String.ofList value)
  | [] => none

/-- The options that an argument may be short for, each with its name and the value attached. -/
def candidates (c : Command) (cs : List Char) : List (OptionSpec × String × Option String) :=
  match cs with
  | '-' :: '-' :: _ =>
    let (lead, value) :=
      match cut? cs with
      | some (lead, value) => (lead.toList, some value)
      | none => (cs, none)
    c.names.filterMap fun (name, o) =>
      if (strip? lead name.toList).isSome then some (o, name, value) else none
  | dash :: letter :: more =>
    c.names.filterMap fun (name, o) =>
      if name.toList = [dash, letter] then some (o, name, some (String.ofList more))
      else if (strip? cs name.toList).isSome then some (o, name, none)
      else none
  | _ => []

/-- Whether a text looks like a negative number: digits, or digits around a point.  A line feed may
end it. -/
def isNegative : List Char → Bool
  | '-' :: cs =>
    let cs := if cs.getLast? = some '\n' then cs.dropLast else cs
    let rest := cs.dropWhile isDecimal
    if rest.isEmpty then !cs.isEmpty
    else
      match rest with
      | '.' :: part => !part.isEmpty && part.all isDecimal
      | _ => false
  | _ => false

/-- The role of one argument. -/
def classify (c : Command) (text : String) : Except Misuse Argument :=
  let cs := text.toList
  if cs.head? ≠ some '-' then .ok (.plain text)
  else
    match c.option? text with
    | some o => .ok (.option o text none)
    | none =>
      if cs.length = 1 then .ok (.plain text)
      else
        match (cut? cs).bind fun (name, value) => (c.option? name).map (·, name, value) with
        | some (o, name, value) => .ok (.option o name (some value))
        | none =>
          match c.candidates cs with
          | [(o, name, value)] => .ok (.option o name value)
          | [] => .ok (if isNegative cs || cs.contains ' ' then .plain text else .unknown text)
          | found => .error (.ambiguous text (found.map (·.2.1)))

/-- The roles of all arguments. -/
def classifyAll (c : Command) : List String → Except Misuse (List Argument)
  | [] => .ok []
  | text :: rest =>
    if text = "--" then .ok (.dashes :: rest.map .plain)
    else do
      let a ← c.classify text
      return a :: (← c.classifyAll rest)

/-- What has been taken so far, the positional arguments still wanted, and what fits nowhere. -/
structure Progress where
  given : Given := {}
  wanted : List String
  extras : List String := []

/-- The value of one positional argument, and what follows it.  Dashes before or after the argument
go with it, and those before it keep it as it is. -/
def positional? : List Argument → Option (Option String × List Argument)
  | .dashes :: .plain text :: rest => some (some text, rest)
  | .plain text :: .dashes :: rest => some (some text, rest)
  | .plain text :: rest => some (Given.valueOf text, rest)
  | _ => none

/-- Takes positional arguments from the front as long as some are wanted. -/
def takePositionals : List String → Given → List Argument → List String × Given × List Argument
  | [], g, args => ([], g, args)
  | w :: ws, g, args =>
    match positional? args with
    | some (value, rest) => takePositionals ws { g with positionals := g.positionals ++ [value] } rest
    | none => (w :: ws, g, args)

/-- The options in a run of letters: each takes no value except perhaps the last. -/
def unfoldRun (c : Command) (o : OptionSpec) (name : String) : List Char →
    Except Misuse (List (OptionSpec × Option String))
  | [] => .ok [(o, none)]
  | letter :: more =>
    let value := String.ofList (letter :: more)
    if o.takesValue then .ok [(o, some value)]
    else if (name.toList.drop 1).head? = some '-' then .error (.needlessValue o.label value)
    else
      let next := String.ofList ['-', letter]
      match c.option? next with
      | some p => do return (o, none) :: (← c.unfoldRun p next more)
      | none => .error (.needlessValue o.label value)

/-- Takes an option, unless it ends the command. -/
def act (g : Given) (o : OptionSpec) (text : String) : Except Stop Given :=
  let value := Given.valueOf text
  let taken : Given := { g with options := g.options ++ [(o.name, value)] }
  match o.kind with
  | .version => .error .version
  | .help => .error .help
  | .integer =>
    match value.map fun v => Numeral.int? 10 v.toList with
    | some (.error _) => .error (.misuse (.notInteger o.label text))
    | _ => .ok taken
  | _ => .ok taken

/-- The options meant by one argument, without the value that may follow. -/
def runOf (c : Command) (o : OptionSpec) (name : String) (value : Option String) :
    Except Misuse (List (OptionSpec × Option String)) :=
  match value with
  | none => .ok [(o, none)]
  | some v =>
    if v.isEmpty then
      if o.takesValue then .ok [(o, some v)] else .error (.needlessValue o.label v)
    else c.unfoldRun o name v.toList

/-- Gives the last option of a run the argument after it, if it still lacks a value. -/
def complete (run : List (OptionSpec × Option String)) (rest : List Argument) :
    Except Misuse (List (OptionSpec × Option String) × List Argument) :=
  match run.getLast? with
  | some (o, none) =>
    if o.takesValue then
      match rest with
      | .plain text :: rest => .ok (run.dropLast ++ [(o, some text)], rest)
      | _ => .error (.noValue o.label)
    else .ok (run, rest)
  | _ => .ok (run, rest)

/-- Takes the options meant by one argument. -/
def takeOption (c : Command) (g : Given) (o : OptionSpec) (name : String) (value : Option String)
    (rest : List Argument) : Except Stop (Given × List Argument) := do
  let run ← (c.runOf o name value).mapError Stop.misuse
  let (run, rest) ← (complete run rest).mapError Stop.misuse
  let g ← run.foldlM (fun g ((p, v) : OptionSpec × Option String) => act g p (v.getD "")) g
  return (g, rest)

/-- Goes through the arguments.  Positional arguments are taken in front of each option and at the
end. -/
def consume (c : Command) : Nat → Progress → List Argument → Except Stop Progress
  | 0, p, _ => .ok p
  | fuel + 1, p, args =>
    if args.any (·.isOption) then
      match args with
      | .option o name value :: rest => do
        let (given, rest) ← c.takeOption p.given o name value rest
        c.consume fuel { p with given } rest
      | .unknown text :: rest => c.consume fuel { p with extras := p.extras ++ [text] } rest
      | a :: rest =>
        let (wanted, given, left) := takePositionals p.wanted p.given (a :: rest)
        if left.length < (a :: rest).length then c.consume fuel { p with wanted, given } left
        else c.consume fuel { p with extras := p.extras ++ [a.text] } rest
      | [] => .ok p
    else
      let (wanted, given, left) := takePositionals p.wanted p.given args
      .ok { wanted, given, extras := p.extras ++ left.map (·.text) }

/-- What the arguments give, or why the command ends at once. -/
def parse (c : Command) (args : List String) : Except Stop Given := do
  let roles ← (c.classifyAll args).mapError Stop.misuse
  let p ← c.consume (roles.length + 1) { wanted := c.positionals } roles
  if !p.wanted.isEmpty then .error (.misuse (.lacking p.wanted))
  else if !p.extras.isEmpty then .error (.misuse (.unrecognized p.extras))
  else .ok p.given

end Command
end TalkDeck
