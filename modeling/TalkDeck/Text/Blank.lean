/-
White space of every script, and trimming.
-/

namespace TalkDeck
namespace Text

/-- White space: the ASCII layout characters, the four information separators, the next-line
character, and the space separators, line separator and paragraph separator of Unicode. -/
def isBlank (c : Char) : Bool :=
  let n := c.toNat
  decide (9 ≤ n ∧ n ≤ 13) || decide (28 ≤ n ∧ n ≤ 32) || n == 0x85 || n == 0xA0 || n == 0x1680 ||
    decide (0x2000 ≤ n ∧ n ≤ 0x200A) || n == 0x2028 || n == 0x2029 || n == 0x202F ||
    n == 0x205F || n == 0x3000

def trimLeft (cs : List Char) : List Char := cs.dropWhile isBlank

def trimRight (cs : List Char) : List Char := (cs.reverse.dropWhile isBlank).reverse

def trim (cs : List Char) : List Char := trimRight (trimLeft cs)

def allBlank (cs : List Char) : Bool := cs.all isBlank

/-- How many blanks the text opens with. -/
def blankLead (cs : List Char) : Nat := (cs.takeWhile isBlank).length

theorem trimLeft_eq_drop (cs : List Char) : trimLeft cs = cs.drop (blankLead cs) := by
  induction cs with
  | nil => rfl
  | cons c cs ih =>
    by_cases h : isBlank c = true
    · simpa [trimLeft, blankLead, List.dropWhile_cons, List.takeWhile_cons, h] using ih
    · simp [trimLeft, blankLead, h]

end Text
end TalkDeck
