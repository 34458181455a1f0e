import TalkDeck.Lint.Path
import TalkDeck.Wire.Diagnostic

/-
The report of a lint run: the diagnostics of every deck, and how many of them count.
-/

namespace TalkDeck
namespace Lint

def release : String := "1.0.0"

/-- The diagnostics of the decks, by their paths. -/
abbrev Findings := List (Path × List Diagnostic)

/-- How many diagnostics have a severity. -/
def Findings.count (severity : Severity) (fs : Findings) : Nat :=
  (fs.flatMap (·.2)).countP fun d => d.severity == some severity

/-- The report on decks below a directory, with the numbers of errors and warnings. -/
def report (base : Path) (fs : Findings) (errors warnings : Int) : Json :=
  .obj
    [("version", .str release),
      ("decks", .obj (fs.map fun (p, ds) => (base.relativeTo p, .arr (ds.map Wire.diagnostic)))),
      ("summary",
        .obj [("decks", .int fs.length), ("errors", .int errors), ("warnings", .int warnings)])]

end Lint
end TalkDeck
