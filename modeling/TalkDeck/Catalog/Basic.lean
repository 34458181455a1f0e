/-
The catalog of action types: which actions a deck may name, and which parameters they take.
-/

namespace TalkDeck

/-- Where the values of a parameter come from. -/
inductive CompletionKind where
  | file
  | launchConfig
  | enum
  | text
deriving DecidableEq, Repr

def CompletionKind.all : List CompletionKind := [file, launchConfig, enum, text]

def CompletionKind.name : CompletionKind → String
  | file => "file"
  | launchConfig => "launchConfig"
  | enum => "enum"
  | text => "text"

def CompletionKind.ofName? (s : String) : Option CompletionKind := all.find? (·.name == s)

inductive ParameterType where
  | string
  | number
  | boolean
  | array
  | object
deriving DecidableEq, Repr

def ParameterType.all : List ParameterType := [string, number, boolean, array, object]

def ParameterType.name : ParameterType → String
  | string => "string"
  | number => "number"
  | boolean => "boolean"
  | array => "array"
  | object => "object"

def ParameterType.ofName? (s : String) : Option ParameterType := all.find? (·.name == s)

structure ParameterSpec where
  name : String
  type : ParameterType
  required : Bool := false
  description : String := ""
  /-- The allowed values, if only some are. -/
  allowed : Option (List String) := none
  completion : Option CompletionKind := none
deriving DecidableEq, Repr

structure ActionSpec where
  type : String
  description : String
  requiresTrust : Bool := false
  parameters : List ParameterSpec := []
deriving DecidableEq, Repr

namespace ActionSpec

def parameter? (s : ActionSpec) (name : String) : Option ParameterSpec :=
  s.parameters.find? (·.name == name)

def required (s : ActionSpec) : List String := (s.parameters.filter (·.required)).map (·.name)

def names (s : ActionSpec) : List String := s.parameters.map (·.name)

end ActionSpec

/-- Action types in the order of their registration, each once. -/
structure Catalog where
  specs : List ActionSpec
deriving DecidableEq, Repr

namespace Catalog

def empty : Catalog := ⟨[]⟩

/-- Adds an action type, or replaces the one of that name where it stands. -/
def register (c : Catalog) (s : ActionSpec) : Catalog :=
  if c.specs.any (·.type == s.type) then
    ⟨c.specs.map fun t => if t.type == s.type then s else t⟩
  else ⟨c.specs ++ [s]⟩

def spec? (c : Catalog) (type : String) : Option ActionSpec := c.specs.find? (·.type == type)

def knows (c : Catalog) (type : String) : Bool := (c.spec? type).isSome

def types (c : Catalog) : List String := c.specs.map (·.type)

def required (c : Catalog) (type : String) : List String := ((c.spec? type).map (·.required)).getD []

def names (c : Catalog) (type : String) : List String := ((c.spec? type).map (·.names)).getD []

end Catalog

/-- Keys that every action may have. -/
def isMetaField (key : String) : Bool := ["type", "label", "description"].contains key

/-- What a directive may render: its type, what it does, and the parameters it takes. -/
structure RenderSpec where
  type : String
  description : String
  parameters : List String

def renderSpecs : List RenderSpec :=
  [⟨"file", "Renders the contents of a file inline in the slide.",
      ["path", "lines", "startPattern", "endPattern", "format", "lang", "watch"]⟩,
    ⟨"command", "Renders the output of a shell command inline in the slide.",
      ["cmd", "timeout", "format", "cwd", "shell", "cached", "onError", "fallback", "retries",
        "stream"]⟩,
    ⟨"diff", "Renders a diff view between two files or content blocks.",
      ["path", "before", "after", "left", "right", "mode", "context"]⟩]

def renderSpec? (type : String) : Option RenderSpec := renderSpecs.find? (·.type == type)

end TalkDeck
