import TalkDeck.Position
import TalkDeck.Text.Split

/-
Edits: a range of a text and what replaces it.  Lines end in `\n` only and characters are code points,
as everywhere else; an editor that counts otherwise would first translate the range.  A position past
the end of a line means the end of that line, and one past the last line the end of the text.
-/

namespace TalkDeck

structure Edit where
  range : Range
  newText : String
deriving DecidableEq, Repr

namespace Edit

/-- How many characters stand before a position. -/
def offset (ls : List (List Char)) (p : Position) : Nat :=
  match ls, p.line with
  | [], _ => 0
  | [l], 0 => min p.character l.length
  | [l], _ + 1 => l.length
  | l :: _, 0 => min p.character l.length
  | l :: ls, n + 1 => l.length + 1 + offset ls ⟨n, p.character⟩

/-- The text after the edit. -/
def apply (e : Edit) (cs : List Char) : List Char :=
  let ls := Text.lines cs
  cs.take (offset ls e.range.start) ++ e.newText.toList ++ cs.drop (offset ls e.range.stop)

end Edit
end TalkDeck
