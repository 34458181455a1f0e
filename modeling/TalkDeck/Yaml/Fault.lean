import TalkDeck.Text.Quoted
import TalkDeck.Text.Utf8
import TalkDeck.Yaml.Cursor

/-
What can be wrong with a markup text.  A fault of form carries the mark at which it shows; a fault
of a single value does not; and some values stop the whole reading.
-/

namespace TalkDeck
namespace Yaml

/-- The three forms of a node. -/
inductive Shape where
  | scalar
  | sequence
  | mapping
deriving DecidableEq, Repr

def Shape.name : Shape → String
  | .scalar => "scalar"
  | .sequence => "sequence"
  | .mapping => "mapping"

/-- Why binary data cannot be read. -/
inductive Base64Fault where
  | loneCharacter (count : Nat)
  | padding
deriving DecidableEq, Repr

def Base64Fault.message : Base64Fault → String
  | .loneCharacter n =>
    "Invalid base64-encoded string: number of data characters (" ++ toString n ++
      ") cannot be 1 more than a multiple of 4"
  | .padding => "Incorrect padding"

/-- The characters beyond ASCII that come first in a text: one of them, or a run. -/
inductive NonAscii where
  | one (c : Char) (offset : Nat)
  | run (first last : Nat)
deriving DecidableEq, Repr

def NonAscii.message : NonAscii → String
  | .one c offset =>
    let n := c.toNat
    let code :=
      if n < 0x100 then "x" ++ String.ofList (Text.hex 2 n)
      else if n < 0x10000 then "u" ++ String.ofList (Text.hex 4 n)
      else "U" ++ String.ofList (Text.hex 8 n)
    "'ascii' codec can't encode character '\\" ++ code ++ "' in position " ++ toString offset ++
      ": ordinal not in range(128)"
  | .run first last =>
    "'ascii' codec can't encode characters in position " ++ toString first ++ "-" ++ toString last ++
      ": ordinal not in range(128)"

/-- Faults of form. -/
inductive Problem where
  | noTokenStart (found : Char)
  | keyWithoutColon
  | entryNotAllowed
  | keyNotAllowed
  | valueNotAllowed
  | expectedName (found : Char)
  | expectedDigit (found : Char)
  | expectedDigitOrDot (found : Char)
  | expectedDigitOrSpace (found : Char)
  | expectedSpace (found : Char)
  | expectedLineEnd (found : Char)
  | expectedClose (found : Char)
  | expectedBang (found : Char)
  | expectedUri (found : Char)
  | expectedUriEscape (found : Char)
  | uriNotUtf8 (fault : Text.Utf8.Fault)
  | zeroIndentation
  | expectedBlockHeader (found : Char)
  | expectedHex (count : Nat) (found : Char)
  | unknownEscape (found : Char)
  | unclosedQuote
  | separatorInQuote
  | expectedDocumentStart (found : String)
  | repeatedVersion
  | foreignVersion
  | repeatedHandle (handle : String)
  | undefinedHandle (handle : String)
  | expectedContent (found : String)
  | expectedBlockEnd (found : String)
  | expectedCommaOrBracket (found : String)
  | expectedCommaOrBrace (found : String)
  | undefinedAlias (name : String)
  | repeatedAnchor
  | secondDocument
  | unknownTag (tag : String)
  | unhashableKey
  | expectedScalarNode (found : Shape)
  | expectedSequenceNode (found : Shape)
  | expectedMappingNode (found : Shape)
  | unmergeableItem (found : Shape)
  | unmergeable (found : Shape)
  | expectedSequence (found : Shape)
  | expectedSingleton (found : Shape)
  | notSingleton (count : Nat)
  | binaryNotAscii (found : NonAscii)
  | binaryNotBase64 (fault : Base64Fault)
deriving DecidableEq, Repr

namespace Problem

/-- "but found" with a character. -/
def butFound (expected : String) (c : Char) : String :=
  expected ++ ", but found " ++ Text.quotedChar c

def message : Problem → String
  | noTokenStart c => "found character " ++ Text.quotedChar c ++ " that cannot start any token"
  | keyWithoutColon => "could not find expected ':'"
  | entryNotAllowed => "sequence entries are not allowed here"
  | keyNotAllowed => "mapping keys are not allowed here"
  | valueNotAllowed => "mapping values are not allowed here"
  | expectedName c => butFound "expected alphabetic or numeric character" c
  | expectedDigit c => butFound "expected a digit" c
  | expectedDigitOrDot c => butFound "expected a digit or '.'" c
  | expectedDigitOrSpace c => butFound "expected a digit or ' '" c
  | expectedSpace c => butFound "expected ' '" c
  | expectedLineEnd c => butFound "expected a comment or a line break" c
  | expectedClose c => butFound "expected '>'" c
  | expectedBang c => butFound "expected '!'" c
  | expectedUri c => butFound "expected URI" c
  | expectedUriEscape c => butFound "expected URI escape sequence of 2 hexadecimal numbers" c
  | uriNotUtf8 f => f.message
  | zeroIndentation => "expected indentation indicator in the range 1-9, but found 0"
  | expectedBlockHeader c => butFound "expected chomping or indentation indicators" c
  | expectedHex n c =>
    butFound ("expected escape sequence of " ++ toString n ++ " hexadecimal numbers") c
  | unknownEscape c => "found unknown escape character " ++ Text.quotedChar c
  | unclosedQuote => "found unexpected end of stream"
  | separatorInQuote => "found unexpected document separator"
  | expectedDocumentStart t => "expected '<document start>', but found " ++ Text.quoted t
  | repeatedVersion => "found duplicate YAML directive"
  | foreignVersion => "found incompatible YAML document (version 1.* is required)"
  | repeatedHandle h => "duplicate tag handle " ++ Text.quoted h
  | undefinedHandle h => "found undefined tag handle " ++ Text.quoted h
  | expectedContent t => "expected the node content, but found " ++ Text.quoted t
  | expectedBlockEnd t => "expected <block end>, but found " ++ Text.quoted t
  | expectedCommaOrBracket t => "expected ',' or ']', but got " ++ Text.quoted t
  | expectedCommaOrBrace t => "expected ',' or '\x7d', but got " ++ Text.quoted t
  | undefinedAlias a => "found undefined alias " ++ Text.quoted a
  | repeatedAnchor => "second occurrence"
  | secondDocument => "but found another document"
  | unknownTag t => "could not determine a constructor for the tag " ++ Text.quoted t
  | unhashableKey => "found unhashable key"
  | expectedScalarNode s => "expected a scalar node, but found " ++ s.name
  | expectedSequenceNode s => "expected a sequence node, but found " ++ s.name
  | expectedMappingNode s => "expected a mapping node, but found " ++ s.name
  | unmergeableItem s => "expected a mapping for merging, but found " ++ s.name
  | unmergeable s => "expected a mapping or list of mappings for merging, but found " ++ s.name
  | expectedSequence s => "expected a sequence, but found " ++ s.name
  | expectedSingleton s => "expected a mapping of length 1, but found " ++ s.name
  | notSingleton n => "expected a single mapping item, but found " ++ toString n ++ " items"
  | binaryNotAscii f => "failed to convert base64 data into ascii: " ++ f.message
  | binaryNotBase64 f => "failed to decode base64 data: " ++ f.message

end Problem

/-- Faults of a single value, reported without a mark. -/
inductive ValueProblem where
  | unacceptable (c : Char)
  | codePoint
  | integer (base : Nat) (text : List Char)
  | integerTooLong (digits : Nat)
  | float (text : List Char)
  | year (n : Nat)
  | month
  | day
  | hour
  | minute
  | second
  | offset (days seconds : Int)
deriving DecidableEq, Repr

namespace ValueProblem

/-- A hexadecimal number of at least `width` digits. -/
def wideHex (width n : Nat) : List Char :=
  let ds := Nat.toDigits 16 n
  List.replicate (width - ds.length) '0' ++ ds

/-- How much of a quoted text that is no integer is shown. -/
def shownLength : Nat := 200

def message : ValueProblem → String
  | unacceptable c =>
    "unacceptable character #x" ++ String.ofList (wideHex 4 c.toNat) ++
      ": special characters are not allowed"
  | codePoint => "chr() arg not in range(0x110000)"
  | integer base text =>
    "invalid literal for int() with base " ++ toString base ++ ": " ++
      String.ofList ((Text.quoted (String.ofList text)).toList.take shownLength)
  | integerTooLong n =>
    "Exceeds the limit (4300 digits) for integer string conversion: value has " ++ toString n ++
      " digits; use sys.set_int_max_str_digits() to increase the limit"
  | float text => "could not convert string to float: " ++ Text.quoted (String.ofList text)
  | year n => "year " ++ toString n ++ " is out of range"
  | month => "month must be in 1..12"
  | day => "day is out of range for month"
  | hour => "hour must be in 0..23"
  | minute => "minute must be in 0..59"
  | second => "second must be in 0..59"
  | offset days seconds =>
    "offset must be a timedelta strictly between -timedelta(hours=24) and timedelta(hours=24), " ++
      "not datetime.timedelta(days=" ++ toString days ++
      (if seconds = 0 then "" else ", seconds=" ++ toString seconds) ++ ")."

end ValueProblem

/-- Values that stop the reading of the whole document. -/
inductive Abort where
  /-- A tagged number of no characters. -/
  | emptyNumber
  /-- A tagged truth value that is none of the known words. -/
  | unknownTruth (word : List Char)
  /-- A tagged timestamp that is none. -/
  | notTimestamp
  /-- A tagged timestamp written as a mapping. -/
  | timestampMapping
  /-- An escaped code point beyond 31 bits. -/
  | hugeCodePoint
  /-- A sexagesimal number with a place beyond every number. -/
  | hugePlace
deriving DecidableEq, Repr

def Abort.message : Abort → String
  | emptyNumber => "string index out of range"
  | unknownTruth w => Text.quoted (String.ofList w)
  | notTimestamp => "'NoneType' object has no attribute 'groupdict'"
  | timestampMapping => "expected string or bytes-like object, got 'list'"
  | hugeCodePoint => "Python int too large to convert to C int"
  | hugePlace => "int too large to convert to float"

inductive Fault where
  | marked (problem : Problem) (mark : Mark)
  | unmarked (problem : ValueProblem)
  | tooDeep
  | abort (cause : Abort)
deriving DecidableEq, Repr

/-- Items produced in order, and the fault that ended the production, if one did. -/
structure Feed (α : Type) where
  items : List α
  fault : Option Fault

end Yaml
end TalkDeck
