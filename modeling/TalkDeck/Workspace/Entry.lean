import TalkDeck.Complaint
import TalkDeck.Journal
import TalkDeck.Number.Lenient
import TalkDeck.Workspace.Index
import TalkDeck.Workspace.Payload

/-
Listings that a client sends: entries of any shape, of which the well-formed ones are kept and the
others are noted and skipped.
-/

namespace TalkDeck
namespace Workspace

/-! ### Fields -/

def textField : Option Payload → Except Defect String
  | none => .error .missing
  | some (.str s) => .ok s
  | some _ => .error .notText

/-- The largest magnitude at which a whole number with a point is still taken for an integer. -/
def wholeLimit : Int := twoTo 63

def intValue : Payload → Except Defect Int
  | .int i => .ok i
  | .bool b => .ok (if b then 1 else 0)
  | .real x =>
    match x with
    | .finite .. =>
      match x.toInt? with
      | some i => if -wholeLimit < i ∧ i < wholeLimit then .ok i else .error .oversizedInteger
      | none => .error .fractional
    | _ => .error .notFinite
  | .str s =>
    (Lenient.int? s.toList).mapError fun
      | .malformed => .unreadableInteger
      | .tooLong => .oversizedInteger
  | _ => .error .notInteger

/-- A line number, which is zero when it is left out. -/
def lineField : Option Payload → Except Defect Nat
  | none => .ok 0
  | some p => do
    let i ← intValue p
    if i < 0 then .error .negative else .ok i.toNat

/-- The complaint about a field, if there is one. -/
def complaint? {α : Type} (place : String) : Except Defect α → List Complaint
  | .ok _ => []
  | .error d => [⟨place, d⟩]

namespace File

/-- A file from its two fields.  All complaints are reported. -/
def ofFields (pathPlace : String) (path uri : Option Payload) : Except (List Complaint) File :=
  match textField path, textField uri with
  | .ok p, .ok u => .ok ⟨p, u⟩
  | p, u => .error (complaint? pathPlace p ++ complaint? "uri" u)

/-- A file from an object, in which the path may be under either of two names. -/
def ofMembers (ms : List (String × Payload)) : Except (List Complaint) File :=
  match Payload.member? ms "relativePath" with
  | some p => ofFields "relativePath" (some p) (Payload.member? ms "uri")
  | none =>
    match Payload.member? ms "relative_path" with
    | some p => ofFields "relative_path" (some p) (Payload.member? ms "uri")
    | none => ofFields "relativePath" none (Payload.member? ms "uri")

end File

namespace LaunchConfig

def ofFields (name uri line : Option Payload) : Except (List Complaint) LaunchConfig :=
  match textField name, textField uri, lineField line with
  | .ok n, .ok u, .ok l => .ok ⟨n, u, l⟩
  | n, u, l => .error (complaint? "name" n ++ complaint? "uri" u ++ complaint? "line" l)

def ofMembers (ms : List (String × Payload)) : Except (List Complaint) LaunchConfig :=
  ofFields (Payload.member? ms "name") (Payload.member? ms "uri") (Payload.member? ms "line")

end LaunchConfig

/-! ### Listings -/

/-- A value that has no entries to go through. -/
inductive NotListing where
  | int
  | bool
  | real
deriving DecidableEq, Repr

def NotListing.message (e : NotListing) : String :=
  let kind :=
    match e with
    | .int => "int"
    | .bool => "bool"
    | .real => "float"
  Text.quoted kind ++ " object is not iterable"

/-- The entries of a listing: the items of a list, the values of a record, the keys of a mapping, the
characters of a text.  Nothing, zero and whatever is false or empty count as an empty listing. -/
def entries : Payload → Except NotListing (List Payload)
  | .null => .ok []
  | .bool b => if b then .error .bool else .ok []
  | .int i => if i = 0 then .ok [] else .error .int
  | .real x => if x.isInt 0 then .ok [] else .error .real
  | .str s => .ok (s.toList.map fun c => .str (String.singleton c))
  | .arr items => .ok items
  | .obj members => .ok (members.map fun (k, _) => .str k)
  | .record _ fields => .ok (fields.map fun (_, p) => p)

/-- Why a listing is not loaded: it has no entries to go through, or an entry to be noted has no
text. -/
inductive ListingFault where
  | notListing (e : NotListing)
  | noText (e : Yaml.NoText)
deriving DecidableEq, Repr

/-- A kind of entry: what notes call it, the name of its form, and how it is read. -/
structure EntryKind (α : Type) where
  label : String
  form : String
  read : List (String × Payload) → Except (List Complaint) α

namespace EntryKind

variable {α : Type}

def complaintText (form : String) (count : Nat) : String :=
  toString count ++ (if count = 1 then " validation error for " else " validation errors for ") ++ form

/-- One entry, or why it is skipped. -/
def readEntry (k : EntryKind α) (entry : Payload) : Except String α :=
  match entry.members? with
  | some ms => (k.read ms).mapError fun cs => complaintText k.form cs.length
  | none => .error "vars() argument must have __dict__ attribute"

/-- The note that an entry is skipped, which shows the entry. -/
def skipNote (limits : Limits) (k : EntryKind α) (entry : Payload) (why : String) :
    Except Yaml.NoText Note := do
  return ⟨2, "Skipping invalid " ++ k.label ++ " entry " ++ (← entry.text limits) ++ ": " ++ why⟩

/-- The entries that are well formed, in order, and notes about the others.  An entry that cannot be
noted ends the loading. -/
def loadEntries (limits : Limits) (k : EntryKind α) :
    List Payload → Except Yaml.NoText (List α) × Journal
  | [] => (.ok [], [])
  | p :: ps =>
    match k.readEntry p with
    | .ok a =>
      let (found, notes) := loadEntries limits k ps
      (found.map (a :: ·), notes)
    | .error why =>
      match k.skipNote limits p why with
      | .ok n =>
        let (found, notes) := loadEntries limits k ps
        (found, n :: notes)
      | .error e => (.error e, [])

/-- What a listing holds. -/
def load (limits : Limits) (k : EntryKind α) (listing : Payload) :
    Except ListingFault (List α) × Journal :=
  match entries listing with
  | .ok ps =>
    let (found, notes) := k.loadEntries limits ps
    (found.mapError .noText, notes)
  | .error e => (.error (.notListing e), [])

end EntryKind

def fileKind : EntryKind File := ⟨"workspace file", "CachedFile", File.ofMembers⟩

def launchKind : EntryKind LaunchConfig := ⟨"launch config", "CachedLaunchConfig", LaunchConfig.ofMembers⟩

namespace Index

/-- Replaces the files by those of a listing. -/
def loadFiles (limits : Limits) (i : Index) (listing : Payload) :
    Except ListingFault Index × Journal :=
  let (files, notes) := fileKind.load limits listing
  (files.map fun files => { i with files }, notes)

/-- Replaces the launch configurations by those of a listing. -/
def loadLaunch (limits : Limits) (i : Index) (listing : Payload) :
    Except ListingFault Index × Journal :=
  let (launch, notes) := launchKind.load limits listing
  (launch.map fun launch => { i with launch }, notes)

end Index
end Workspace
end TalkDeck
