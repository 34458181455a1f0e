import TalkDeck.Catalog.Standard
import TalkDeck.Debounce
import TalkDeck.Diagnostic
import TalkDeck.Store
import TalkDeck.Workspace.Entry

/-
A session with an editor: the open documents, the delayed publications, the workspace index, and
everything said to the editor so far.
-/

namespace TalkDeck

/-- The diagnostics of a document as told to the editor.  Without a version the document is closed. -/
structure Publication where
  uri : String
  version : Option Int
  diagnostics : List Diagnostic
deriving DecidableEq, Repr

/-- What the client does with a request. -/
inductive Answer where
  | value (p : Payload)
  | refused (message : String)
  | silent

structure Session where
  settings : Settings
  catalog : Catalog
  store : Store
  /-- The documents whose diagnostics are due. -/
  timers : Debounce Unit
  /-- What is known of the workspace, once there is a root. -/
  index : Option Workspace.Index
  /-- All publications, the latest last. -/
  published : List Publication
  /-- All requests to the client, the latest last. -/
  requested : List String
  journal : Journal

namespace Session

/-- A session before its first event. -/
def start (settings : Settings) : Session where
  settings
  catalog := Catalog.standard settings.sequenceType
  store := .empty
  timers := { delay := settings.debounceMs }
  index := none
  published := []
  requested := []
  journal := []

def note (s : Session) (n : Note) : Session := { s with journal := s.journal ++ [n] }

def noteAll (s : Session) (ns : Journal) : Session := { s with journal := s.journal ++ ns }

def diagnosticsOf (s : Session) (d : Document) : List Diagnostic := d.diagnostics s.catalog s.settings

/-- Tells the editor the diagnostics of an open document. -/
def publish (s : Session) (uri : String) : Session :=
  match s.store.get? uri with
  | none => s
  | some d =>
    let ds := s.diagnosticsOf d
    { s.note ⟨2, "Publishing " ++ toString ds.length ++ " diagnostic(s) for " ++ uri⟩ with
      published := s.published ++ [⟨uri, some d.version, ds⟩] }

/-- Takes back all diagnostics of a document. -/
def retract (s : Session) (uri : String) : Session :=
  { s with published := s.published ++ [⟨uri, none, []⟩] }

/-- What the editor was last told about a document. -/
def lastPublished? (s : Session) (uri : String) : Option Publication :=
  s.published.reverse.find? (·.uri == uri)

/-- Publishes what has fallen due. -/
def fire (s : Session) (due : List (Timer Unit)) : Session := due.foldl (fun s t => s.publish t.key) s

def settle (s : Session) : Session :=
  let (due, timers) := s.timers.settle
  { s with timers }.fire due

/-- Lets time pass. -/
def wait (s : Session) (nanoseconds : Nat) : Session :=
  let (due, timers) := s.timers.advance nanoseconds
  { s with timers }.fire due

end Session
end TalkDeck
