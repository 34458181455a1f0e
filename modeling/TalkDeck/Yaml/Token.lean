import TalkDeck.Yaml.Fault

/-
The tokens of a markup text.
-/

namespace TalkDeck
namespace Yaml

/-- A tag as written: its handle, if it has one, and the rest. -/
structure RawTag where
  handle : Option String
  suffix : String
deriving DecidableEq, Repr

inductive Directive where
  | version (major minor : Nat)
  | tag (handle lead : String)
  | other
deriving DecidableEq, Repr

namespace Token

inductive Kind where
  | streamStart
  | streamEnd
  | directive (d : Directive)
  | documentStart
  | documentEnd
  | blockSequenceStart
  | blockMappingStart
  | blockEnd
  | flowSequenceStart
  | flowMappingStart
  | flowSequenceEnd
  | flowMappingEnd
  | key
  | value
  | blockEntry
  | flowEntry
  | alias (name : String)
  | anchor (name : String)
  | tag (t : RawTag)
  | scalar (text : List Char) (plain : Bool)
deriving DecidableEq, Repr

/-- The name of a kind of token in messages. -/
def Kind.name : Kind → String
  | .streamStart => "<stream start>"
  | .streamEnd => "<stream end>"
  | .directive _ => "<directive>"
  | .documentStart => "<document start>"
  | .documentEnd => "<document end>"
  | .blockSequenceStart => "<block sequence start>"
  | .blockMappingStart => "<block mapping start>"
  | .blockEnd => "<block end>"
  | .flowSequenceStart => "["
  | .flowMappingStart => "\x7b"
  | .flowSequenceEnd => "]"
  | .flowMappingEnd => "\x7d"
  | .key => "?"
  | .value => ":"
  | .blockEntry => "-"
  | .flowEntry => ","
  | .alias _ => "<alias>"
  | .anchor _ => "<anchor>"
  | .tag _ => "<tag>"
  | .scalar _ _ => "<scalar>"

end Token

structure Token where
  kind : Token.Kind
  start : Mark
  stop : Mark
deriving DecidableEq, Repr

def fail {α : Type} (p : Problem) (c : Cursor) : Except Fault α := .error (.marked p c.mark)

end Yaml
end TalkDeck
