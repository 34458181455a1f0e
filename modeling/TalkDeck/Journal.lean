/-
Notes that the tools take while they work.  Each note has a level, and a tool shows the notes up to
its verbosity.
-/

namespace TalkDeck

structure Note where
  level : Int
  text : String
deriving DecidableEq, Repr

/-- The notes of some work, in order. -/
abbrev Journal := List Note

namespace Note

/-- The name under which a level is shown. -/
def label (n : Note) : String :=
  if n.level = 1 then "INFO" else if n.level = 2 then "DEBUG" else "TRACE"

end Note

namespace Journal

/-- The notes that a tool shows: none without a verbosity. -/
def shown (verbosity : Option Int) (j : Journal) : Journal :=
  match verbosity with
  | some v => j.filter fun n => decide (n.level ≤ v)
  | none => []

end Journal

/-- Work that may fail and takes notes up to that point. -/
abbrev Logged (ε : Type) := ExceptT ε (StateM Journal)

def note {ε : Type} (level : Int) (text : String) : Logged ε Unit :=
  modify fun (j : Journal) => j ++ [⟨level, text⟩]

/-- The result of some work, and its notes. -/
def Logged.outcome {ε α : Type} (w : Logged ε α) : Except ε α × Journal :=
  (ExceptT.run w).run []

end TalkDeck
