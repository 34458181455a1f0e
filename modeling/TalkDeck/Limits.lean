/-
How far the tools' own calls may nest.  The tools read and show values by calling themselves, and
the runtime stops a call that is too many.  How many are left depends on the caller; here they are the
same for all.
-/

namespace TalkDeck

structure Limits where
  /-- Collections that may be open at once while a text is read. -/
  nesting : Nat
  /-- Merges, or value keys, that are followed one out of another. -/
  chain : Nat
  /-- Nested calls that showing a value may take, itself counted. -/
  display : Nat
  display_pos : 0 < display
deriving DecidableEq, Repr

/-- What is left of a stack of a thousand calls, nearly: reading takes two calls for a collection. -/
def Limits.usual : Limits := ⟨480, 950, 950, by decide⟩

end TalkDeck
