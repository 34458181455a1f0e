import TalkDeck.Text.Toggle

/-
Decimal digits of every script, with their values.  Each script's digits stand in a row from zero
to nine, so a digit's value is its distance from the start of its run modulo ten.
-/

namespace TalkDeck
namespace Text

/-- Toggles of the decimal digits beyond ASCII. -/
def digitToggles : List Nat :=
  [1632, 1642, 1776, 1786, 1984, 1994, 2406, 2416, 2534, 2544, 2662, 2672, 2790, 2800, 2918, 2928,
   3046, 3056, 3174, 3184, 3302, 3312, 3430, 3440, 3558, 3568, 3664, 3674, 3792, 3802, 3872, 3882,
   4160, 4170, 4240, 4250, 6112, 6122, 6160, 6170, 6470, 6480, 6608, 6618, 6784, 6794, 6800, 6810,
   6992, 7002, 7088, 7098, 7232, 7242, 7248, 7258, 42528, 42538, 43216, 43226, 43264, 43274,
   43472, 43482, 43504, 43514, 43600, 43610, 44016, 44026, 65296, 65306, 66720, 66730, 68912,
   68922, 69734, 69744, 69872, 69882, 69942, 69952, 70096, 70106, 70384, 70394, 70736, 70746,
   70864, 70874, 71248, 71258, 71360, 71370, 71472, 71482, 71904, 71914, 72016, 72026, 72784,
   72794, 73040, 73050, 73120, 73130, 92768, 92778, 92864, 92874, 93008, 93018, 120782, 120832,
   123200, 123210, 123632, 123642, 125264, 125274, 130032, 130042]

/-- The value of a decimal digit of any script. -/
def digitValue? (c : Char) : Option Nat :=
  let n := c.toNat
  if n < 128 then
    if c.isDigit then some (n - 48) else none
  else if toggled digitToggles n then some ((n - lastToggle digitToggles n 0) % 10)
  else none

def isDecimal (c : Char) : Bool := (digitValue? c).isSome

end Text
end TalkDeck
