/-
Edit distance: the least number of insertions, deletions and substitutions of single characters that
turn one text into another, computed in a single row of the table that each character overwrites.
-/

namespace TalkDeck
namespace EditDistance

/-- Overwrites the entries of a row from `j` on for the character `a`.  The entry diagonally above the
first of them is no longer in the row and comes along. -/
def overwrite (a : Char) : List Char → Nat → Nat → Array Nat → Array Nat
  | [], _, _, row => row
  | b :: bs, j, diagonal, row =>
    let above := row.getD j 0
    let entry := min (min (above + 1) (row.getD (j - 1) 0 + 1)) (diagonal + if a = b then 0 else 1)
    overwrite a bs (j + 1) above (row.setIfInBounds j entry)

/-- The row of the table for the `i`-th character `a`, in place of the row above it. -/
def nextRow (bs : List Char) (row : Array Nat) (a : Char) (i : Nat) : Array Nat :=
  overwrite a bs 1 (row.getD 0 0) (row.setIfInBounds 0 i)

/-- The table's last row, from the row of the empty text down. -/
def lastRow (as bs : List Char) : Array Nat :=
  (as.zipIdx 1).foldl (fun row (a, i) => nextRow bs row a i) (List.range (bs.length + 1)).toArray

/-- Equal texts and empty ones need no table. -/
def distance (as bs : List Char) : Nat :=
  if as = bs then 0
  else if as = [] then bs.length
  else if bs = [] then as.length
  else (lastRow as bs).back?.getD 0

end EditDistance
end TalkDeck
