/-
What is wrong with a value that comes from outside: the place of the value and the reason it is
refused.
-/

namespace TalkDeck

/-- Why a value is refused. -/
inductive Defect where
  | missing
  | unexpected
  | notText
  | notInteger
  | unreadableInteger
  | oversizedInteger
  | fractional
  | notFinite
  | negative
  | unreadableNumber
  | unreadableTruth
deriving DecidableEq, Repr

namespace Defect

/-- The code under which a defect is reported. -/
def code : Defect → String
  | missing => "missing"
  | unexpected => "extra_forbidden"
  | notText => "string_type"
  | notInteger => "int_type"
  | unreadableInteger => "int_parsing"
  | oversizedInteger => "int_parsing_size"
  | fractional => "int_from_float"
  | notFinite => "finite_number"
  | negative => "greater_than_equal"
  | unreadableNumber => "float_parsing"
  | unreadableTruth => "bool_parsing"

end Defect

structure Complaint where
  place : String
  defect : Defect
deriving DecidableEq, Repr

end TalkDeck
