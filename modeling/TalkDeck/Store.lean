import TalkDeck.Deck.Document
import TalkDeck.Journal

/-
The open documents, one for each URI, in the order in which they were opened.  A change replaces a
document in its place.
-/

namespace TalkDeck

structure Store where
  documents : List Document
deriving DecidableEq, Repr

namespace Store

def empty : Store := ⟨[]⟩

def get? (s : Store) (uri : String) : Option Document := s.documents.find? (·.uri == uri)

def contains (s : Store) (uri : String) : Bool := (s.get? uri).isSome

def uris (s : Store) : List String := s.documents.map (·.uri)

/-- Puts a document into the place of the one with its URI, or last. -/
def put : List Document → Document → List Document
  | [], d => [d]
  | e :: es, d => if e.uri = d.uri then d :: es else e :: put es d

def insert (s : Store) (d : Document) : Store := ⟨put s.documents d⟩

def erase (s : Store) (uri : String) : Store := ⟨s.documents.filter (·.uri != uri)⟩

theorem find?_put (ds : List Document) (d : Document) (uri : String) :
    (put ds d).find? (·.uri == uri) =
      if d.uri = uri then some d else ds.find? (·.uri == uri) := by
  induction ds with
  | nil => by_cases h : d.uri = uri <;> simp [put, h]
  | cons e es ih =>
    unfold put
    split
    · next h =>
      by_cases hd : d.uri = uri
      · simp [hd]
      · have he : e.uri ≠ uri := fun he => hd (h ▸ he)
        simp [hd, he]
    · next h =>
      by_cases he : e.uri = uri
      · have hd : d.uri ≠ uri := fun hd => h (he.trans hd.symm)
        simp [he, hd]
      · simpa [he] using ih

@[simp] theorem get?_insert (s : Store) (d : Document) (uri : String) :
    (s.insert d).get? uri = if d.uri = uri then some d else s.get? uri :=
  find?_put s.documents d uri

@[simp] theorem get?_erase (s : Store) (uri other : String) :
    (s.erase uri).get? other = if uri = other then none else s.get? other := by
  unfold erase get?
  induction s.documents with
  | nil => simp
  | cons e es ih =>
    by_cases he : e.uri = uri
    · by_cases hu : uri = other
      · simp_all
      · have : e.uri ≠ other := fun h => hu (he ▸ h)
        simp_all
    · by_cases ho : e.uri = other
      · have : uri ≠ other := fun h => he (ho.trans h.symm)
        simp_all
      · simp_all

/-- Reads a text and keeps it under its URI. -/
def load (limits : Limits) (s : Store) (sequenceType uri : String) (version : Int)
    (text : String) : Except Yaml.Abort (Document × Store × Note) := do
  let d ← Document.create limits uri version text sequenceType
  return (d, s.insert d, ⟨2, "Opened " ++ uri ++ " (v" ++ toString version ++ ", " ++
    toString d.slides.length ++ " slides)"⟩)

/-- Reads a new text of an open document.  A document that is not open stays so. -/
def change (limits : Limits) (s : Store) (sequenceType uri : String) (version : Int)
    (text : String) : Except Yaml.Abort (Option Document × Store × Note) :=
  if s.contains uri then do
    let d ← Document.create limits uri version text sequenceType
    return (some d, s.insert d, ⟨3, "Re-parsed " ++ uri ++ " (v" ++ toString version ++ ")"⟩)
  else return (none, s, ⟨2, "Change for unknown document " ++ uri ++ " ignored"⟩)

def close (s : Store) (uri : String) : Store × Note := (s.erase uri, ⟨2, "Closed " ++ uri⟩)

end Store
end TalkDeck
