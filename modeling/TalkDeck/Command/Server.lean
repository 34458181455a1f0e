import TalkDeck.Command.Parse
import TalkDeck.Journal

/-
Starting the language server: over its standard streams, or on a port.
-/

namespace TalkDeck
namespace Server

def release : String := "1.0.0"

/-- How the server is reached.  A host or port may have been left without a value. -/
inductive Transport where
  | stdio
  | tcp (host : Option String) (port : Option Int)
deriving DecidableEq, Repr

def command : Command where
  program := "deckls"
  version := release
  options :=
    [⟨["-h", "--help"], .help⟩, ⟨["--tcp"], .switch⟩, ⟨["--host"], .text⟩, ⟨["--port"], .integer⟩,
      ⟨["-v", "--verbosity"], .count⟩, ⟨["-V", "--version"], .version⟩]
  positionals := []

def hostOf (g : Given) : Option String := (g.value? "--host").getD (some "127.0.0.1")

def portOf (g : Given) : Option Int :=
  match g.value? "--port" with
  | none => some 2087
  | some none => none
  | some (some v) => (Numeral.int? 10 v.toList).toOption

def transportOf (g : Given) : Transport :=
  if g.has "--tcp" then .tcp (hostOf g) (portOf g) else .stdio

def verbosityOf (g : Given) : Int := 1 + g.count "--verbosity"

/-- A place without a value is shown as an empty list. -/
def shownValue (v : Option String) : String := v.getD "[]"

def startNote : Transport → Note
  | .stdio => ⟨1, "deckls " ++ release ++ " on stdio"⟩
  | .tcp host port =>
    ⟨1, "deckls " ++ release ++ " listening on " ++ shownValue host ++ ":" ++
      shownValue (port.map toString)⟩

/-- How the server starts with the given arguments, and what it notes at its verbosity. -/
def start (args : List String) : Except Stop (Transport × Journal) := do
  let g ← command.parse args
  let t := transportOf g
  return (t, Journal.shown (some (verbosityOf g)) [startNote t])

end Server
end TalkDeck
