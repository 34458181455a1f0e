import TalkDeck.Number.Numeral
import TalkDeck.Text.Quoted

/-
Commands and their arguments: which options a command knows, what was given, and what can be wrong
with it.
-/

namespace TalkDeck

inductive OptionKind where
  /-- On when given. -/
  | switch
  /-- Counted. -/
  | count
  /-- Followed by a text. -/
  | text
  /-- Followed by an integer. -/
  | integer
  /-- Shows the version and ends. -/
  | version
  /-- Shows the usage and ends. -/
  | help
deriving DecidableEq, Repr

/-- An option under all its names. -/
structure OptionSpec where
  names : List String
  kind : OptionKind
deriving DecidableEq, Repr

namespace OptionSpec

def takesValue (o : OptionSpec) : Bool := o.kind == .text || o.kind == .integer

/-- The names as messages show them. -/
def label (o : OptionSpec) : String := String.intercalate "/" o.names

/-- The last name, which is the long one. -/
def name (o : OptionSpec) : String := o.names.getLast?.getD ""

end OptionSpec

structure Command where
  program : String
  version : String
  options : List OptionSpec
  positionals : List String
deriving DecidableEq, Repr

namespace Command

/-- Every option name with its option, in order. -/
def names (c : Command) : List (String × OptionSpec) :=
  c.options.flatMap fun o => o.names.map (·, o)

def option? (c : Command) (name : String) : Option OptionSpec := c.names.lookup name

end Command

/-- What is wrong with the arguments of a command. -/
inductive Misuse where
  | ambiguous (given : String) (candidates : List String)
  | noValue (option : String)
  | needlessValue (option value : String)
  | notInteger (option value : String)
  | lacking (positionals : List String)
  | unrecognized (arguments : List String)
deriving DecidableEq, Repr

namespace Misuse

def message : Misuse → String
  | ambiguous given candidates =>
    "ambiguous option: " ++ given ++ " could match " ++ String.intercalate ", " candidates
  | noValue option => "argument " ++ option ++ ": expected one argument"
  | needlessValue option value =>
    "argument " ++ option ++ ": ignored explicit argument " ++ Text.quoted value
  | notInteger option value => "argument " ++ option ++ ": invalid int value: " ++ Text.quoted value
  | lacking positionals =>
    "the following arguments are required: " ++ String.intercalate ", " positionals
  | unrecognized arguments => "unrecognized arguments: " ++ String.intercalate " " arguments

end Misuse

/-- Why a command ends before it begins. -/
inductive Stop where
  | version
  | help
  | misuse (m : Misuse)
deriving DecidableEq, Repr

namespace Stop

def exitCode : Stop → Nat
  | misuse _ => 2
  | _ => 0

def output (c : Command) : Stop → String
  | version => c.program ++ " " ++ c.version ++ "\n"
  | _ => ""

def complaint (c : Command) : Stop → String
  | misuse m => c.program ++ ": error: " ++ m.message
  | _ => ""

end Stop

/-- What was given: options by their long names, in order, and positional arguments.  Two dashes
given where a value belongs are dropped, and leave the place without a value. -/
structure Given where
  options : List (String × Option String) := []
  positionals : List (Option String) := []
deriving DecidableEq, Repr

namespace Given

/-- The value that an argument leaves. -/
def valueOf (text : String) : Option String := if text = "--" then none else some text

def count (g : Given) (name : String) : Nat := g.options.countP (·.1 == name)

def has (g : Given) (name : String) : Bool := g.options.any (·.1 == name)

/-- The value of an option, which is the last one given. -/
def value? (g : Given) (name : String) : Option (Option String) := g.options.reverse.lookup name

end Given
end TalkDeck
