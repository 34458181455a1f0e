import TalkDeck.Yaml.Value

/-
Values as text.  A value of its own is shown plainly; inside a collection texts are quoted, and a
collection inside itself is cut short.  A value has no text when an integer in it has too many
digits, or when its parts nest deeper than the calls that show them may.
-/

namespace TalkDeck
namespace Yaml

/-- Why a value has no text. -/
inductive NoText where
  | longInteger
  | tooDeep
deriving DecidableEq, Repr

def NoText.message : NoText → String
  | longInteger =>
    "Exceeds the limit (4300 digits) for integer string conversion; " ++
      "use sys.set_int_max_str_digits() to increase the limit"
  | tooDeep => "maximum recursion depth exceeded while getting the repr of an object"

def commaed (parts : List String) : String := String.intercalate ", " parts

def padded (width n : Nat) : String :=
  let ds := Nat.toDigits 10 n
  String.ofList (List.replicate (width - ds.length) '0' ++ ds)

namespace Date

def text (d : Date) : String := padded 4 d.year ++ "-" ++ padded 2 d.month ++ "-" ++ padded 2 d.day

end Date

namespace DateTime

def zoneText (offset : Int) : String :=
  (if offset < 0 then "-" else "+") ++ padded 2 (offset.natAbs / 60) ++ ":" ++
    padded 2 (offset.natAbs % 60)

/-- The date, a separator, the time of day, and the zone if there is one. -/
def text (separator : String) (t : DateTime) : String :=
  t.date.text ++ separator ++ padded 2 t.hour ++ ":" ++ padded 2 t.minute ++ ":" ++ padded 2 t.second ++
    (if t.microsecond = 0 then "" else "." ++ padded 6 t.microsecond) ++
    (t.offset.map zoneText).getD ""

end DateTime

namespace Scalar

/-- A zone inside a collection. -/
def innerZone (offset : Int) : String :=
  if offset = 0 then "datetime.timezone.utc"
  else
    let days := Int.fdiv offset 1440
    let seconds := 60 * Int.fmod offset 1440
    "datetime.timezone(datetime.timedelta(" ++
      commaed
        ((if days = 0 then [] else ["days=" ++ toString days]) ++
          if seconds = 0 then [] else ["seconds=" ++ toString seconds]) ++ "))"

/-- A scalar inside a collection. -/
def inner : Scalar → Except NoText String
  | null => .ok "None"
  | bool b => .ok (if b then "True" else "False")
  | int i => if tenTo Numeral.maxDigits ≤ i.natAbs then .error .longInteger else .ok (toString i)
  | float x => .ok (String.ofList x.text)
  | str s => .ok (Text.quoted s)
  | bytes bs => .ok (String.ofList (Text.Quoted.renderOctets bs))
  | date d => .ok ("datetime.date(" ++ commaed ([d.year, d.month, d.day].map toString) ++ ")")
  | dateTime t =>
    let fields :=
      if t.microsecond ≠ 0 then [t.second, t.microsecond] else if t.second ≠ 0 then [t.second] else []
    .ok ("datetime.datetime(" ++
      commaed
        (([t.date.year, t.date.month, t.date.day, t.hour, t.minute] ++ fields).map toString) ++
      (match t.offset with
        | some o => ", tzinfo=" ++ innerZone o
        | none => "") ++ ")")

/-- The nested calls that show a scalar inside a collection: a zone is shown by itself, and so is
the difference that makes it. -/
def calls : Scalar → Nat
  | dateTime t =>
    match t.offset with
    | none => 1
    | some o => if o = 0 then 2 else 3
  | _ => 1

/-- A scalar inside a collection, when it may take `room` calls. -/
def within (room : Nat) (s : Scalar) : Except NoText String :=
  if room < s.calls then .error .tooDeep else s.inner

/-- A scalar on its own. -/
def plain : Scalar → Except NoText String
  | str s => .ok s
  | date d => .ok d.text
  | dateTime t => .ok (t.text " ")
  | s => s.inner

end Scalar

namespace Tree

def square (parts : List String) : String := "[" ++ commaed parts ++ "]"
def round (parts : List String) : String := "(" ++ commaed parts ++ ")"
def curly (parts : List String) : String := "\x7b" ++ commaed parts ++ "\x7d"

mutual

/-- A value inside the containers whose shortened texts are listed, innermost first, when it may take
`room` nested calls.  The members of a set are listed in the order of the source, where the runtime
lists them in the order of its table. -/
def inner (around : List String) : Nat → Tree → Except NoText String
  | 0, _ => .error .tooDeep
  | room + 1, .scalar s => s.within (room + 1)
  | room + 1, .list items => return square (← innerItems (square ["..."] :: around) room items)
  | room + 1, .pair a b => do
    let a ← inner (round ["..."] :: around) room a
    let b ← inner (round ["..."] :: around) room b
    return round [a, b]
  | room + 1, .map entries =>
    return curly (← innerEntries (curly ["..."] :: around) room entries)
  | room + 1, .set members =>
    if members.isEmpty then .ok "set()"
    -- a set first makes a list of its members, which is shown in its place
    else if room = 0 then .error .tooDeep
    else return curly (← members.mapM (Scalar.within (room - 1)))
  | room + 1, .record name fields =>
    -- the fields of a record are shown by a call of their own
    if room = 0 then .error .tooDeep
    else return name ++ round (← innerFields around (room - 1) fields)
  | _ + 1, .cycle up => .ok (around.getD (up - 1) "...")

def innerItems (around : List String) (room : Nat) : List Tree → Except NoText (List String)
  | [] => .ok []
  | t :: ts => do
    let first ← inner around room t
    return first :: (← innerItems around room ts)

def innerEntries (around : List String) (room : Nat) :
    List (Scalar × Tree) → Except NoText (List String)
  | [] => .ok []
  | (k, t) :: es => do
    let key ← k.within room
    let value ← inner around room t
    return (key ++ ": " ++ value) :: (← innerEntries around room es)

def innerFields (around : List String) (room : Nat) :
    List (String × Tree) → Except NoText (List String)
  | [] => .ok []
  | (k, t) :: fs => do
    let value ← inner around room t
    return (k ++ "=" ++ value) :: (← innerFields around room fs)

end

end Tree

/-- The text of a value on its own.  Only what has parts takes nested calls. -/
def Value.text (limits : Limits) (v : Value) : Except NoText String :=
  match v.tree with
  | .scalar s => s.plain
  | t => t.inner [] limits.display

end Yaml
end TalkDeck
