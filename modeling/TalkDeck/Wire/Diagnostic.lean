import TalkDeck.Diagnostic
import TalkDeck.Json

/-
Diagnostics in the shape in which editors exchange them.  Members without a value are left out.
-/

namespace TalkDeck
namespace Wire

/-- A member of an object, left out when it has no value. -/
def member {α : Type} (key : String) (f : α → Json) : Option α → List (String × Json)
  | some a => [(key, f a)]
  | none => []

def nat (n : Nat) : Json := .int n

def position (p : Position) : Json := .obj [("line", nat p.line), ("character", nat p.character)]

def range (r : Range) : Json := .obj [("start", position r.start), ("end", position r.stop)]

def code : DiagnosticCode → Json
  | .text s => .str s
  | .number i => .int i

def diagnostic (d : Diagnostic) : Json :=
  .obj ([("range", range d.range), ("message", .str d.message)] ++
    member "severity" (fun s => nat s.code) d.severity ++ member "code" code d.code ++
    member "source" .str d.source)

end Wire
end TalkDeck
