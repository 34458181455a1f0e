import TalkDeck.Completion
import TalkDeck.Definition
import TalkDeck.Hover
import TalkDeck.Outline
import TalkDeck.QuickFix
import TalkDeck.Session.Workspace

/-
What a session does with each event: documents come and go, requests are answered from the stored
documents, and due diagnostics are published after every event.
-/

namespace TalkDeck
namespace Session

open Workspace

/-- What an editor can say. -/
inductive Event where
  /-- The session begins for the first of the folders, or else for the root. -/
  | begun (folders : List String) (root : Option String)
  /-- The editor is ready; its answers to the two requests come along. -/
  | ready (files launch : Answer)
  | shutdown
  | opened (uri : String) (version : Int) (text : String)
  /-- A document has new texts, of which the last one counts. -/
  | changed (uri : String) (version : Int) (texts : List String)
  | closed (uri : String)
  | configured
  | watched (events : List FileEvent) (launch : Answer)
  | completion (uri : String) (position : Position)
  | hover (uri : String) (position : Position)
  | definition (uri : String) (position : Position)
  | symbols (uri : String)
  | folds (uri : String)
  | codeActions (uri : String)
  | elapsed (nanoseconds : Nat)

inductive Reply where
  | done
  | completion (items : Option (List CompletionItem))
  | hover (h : Option Hover)
  | definition (place : Option Location)
  | symbols (found : List SlideSymbol)
  | folds (found : List Outline.Fold)
  | codeActions (found : List CodeAction)

/-- A version that no message about a document can carry. -/
structure VersionOutOfRange where
  /-- Whether the message opens the document; otherwise it changes it. -/
  opening : Bool
  version : Int
deriving DecidableEq, Repr

def VersionOutOfRange.message (e : VersionOutOfRange) : String :=
  (if e.opening then "TextDocumentItem" else "VersionedTextDocumentIdentifier") ++
    ".version should be in range [-2147483648:2147483647], but was " ++ toString e.version ++ "."

/-- Versions are 32-bit integers. -/
def isVersion (v : Int) : Bool := decide (-2147483648 ≤ v ∧ v ≤ 2147483647)

/-- What an event can fail with. -/
inductive Failure where
  | markup (e : Yaml.Abort)
  | outOfRange (e : OutOfRange)
  | listing (e : ListingFault)
  | noText (e : Yaml.NoText)
  | version (e : VersionOutOfRange)
deriving DecidableEq, Repr

abbrev Outcome := Except Failure Reply × Session

/-! ### Documents -/

/-- Takes the root of the workspace, if there is one. -/
def takeRoot (s : Session) (folders : List String) (root : Option String) : Session :=
  let root := match folders with
    | f :: _ => some f
    | [] => root
  let s := match root.filter (!·.isEmpty) with
    | some r => { s with index := some (Index.empty r) }
    | none => s
  s.note ⟨1, "Initialized for workspace " ++ root.getD "None"⟩

/-- Forgets all documents, timers and listings. -/
def dispose (s : Session) : Session :=
  { s with timers := s.timers.dispose, store := .empty, index := s.index.map (·.clear) }

def openDocument (s : Session) (uri : String) (version : Int) (text : String) : Outcome :=
  match s.store.load s.settings.limits s.settings.sequenceType uri version text with
  | .error e => (.error (.markup e), s)
  | .ok (_, store, n) => (.ok .done, ({ s with store }.note n).publish uri)

/-- Puts off the diagnostics of a document. -/
def schedule (s : Session) (uri : String) : Session :=
  { s.note (s.timers.scheduleNote uri) with timers := s.timers.schedule uri () }

def changeDocument (s : Session) (uri : String) (version : Int) (texts : List String) : Outcome :=
  match texts.getLast? with
  | none => (.ok .done, s)
  | some text =>
    match s.store.change s.settings.limits s.settings.sequenceType uri version text with
    | .error e => (.error (.markup e), s)
    | .ok (none, store, n) => (.ok .done, { s with store }.note n)
    | .ok (some _, store, n) => (.ok .done, ({ s with store }.note n).schedule uri)

def closeDocument (s : Session) (uri : String) : Session :=
  let (store, n) := s.store.close uri
  ({ s with timers := s.timers.cancel uri, store }.note n).retract uri

/-- Publishes the diagnostics of all open documents. -/
def publishAll (s : Session) : Session := s.store.uris.foldl publish s

/-! ### Requests -/

def completionAt (s : Session) (uri : String) (p : Position) : Option (List CompletionItem) :=
  (s.store.get? uri).bind fun d => Completion.itemsAt s.catalog s.settings d p

def hoverAt (s : Session) (uri : String) (p : Position) : Option Hover :=
  (s.store.get? uri).bind fun d => Hover.hoverAt s.catalog d p

def definitionAt (s : Session) (uri : String) (p : Position) :
    Except Definition.Failure (Option Location) :=
  match s.store.get? uri, s.index with
  | some d, some i => Definition.locate s.settings.limits s.catalog i d p
  | _, _ => .ok none

def symbolsOf (s : Session) (uri : String) : List SlideSymbol :=
  ((s.store.get? uri).map Outline.symbols).getD []

def foldsOf (s : Session) (uri : String) : List Outline.Fold :=
  ((s.store.get? uri).map Outline.folds).getD []

/-- The quick fixes for what the editor was last told, and the notes taken on the way. -/
def codeActionsOf (s : Session) (uri : String) : Except OutOfRange (List CodeAction) × Journal :=
  match s.store.get? uri with
  | none => (.ok [], [])
  | some d =>
    let ds := ((s.lastPublished? uri).map (·.diagnostics)).getD []
    (QuickFix.all s.catalog s.settings d ds).outcome

/-! ### Events -/

def ofListing : Except ListingFault Unit × Session → Outcome
  | (.ok (), s) => (.ok .done, s)
  | (.error e, s) => (.error (.listing e), s)

def handle (s : Session) : Event → Outcome
  | .begun folders root => (.ok .done, s.takeRoot folders root)
  | .ready files launch => ofListing (s.refresh files launch)
  | .shutdown => (.ok .done, s.dispose)
  | .opened uri version text =>
    if isVersion version then s.openDocument uri version text else (.error (.version ⟨true, version⟩), s)
  | .changed uri version texts =>
    if isVersion version then s.changeDocument uri version texts
    else (.error (.version ⟨false, version⟩), s)
  | .closed uri => (.ok .done, s.closeDocument uri)
  | .configured => (.ok .done, s.publishAll)
  | .watched events launch => ofListing (s.watch events launch)
  | .completion uri p => (.ok (.completion (s.completionAt uri p)), s)
  | .hover uri p => (.ok (.hover (s.hoverAt uri p)), s)
  | .definition uri p =>
    match s.definitionAt uri p with
    | .ok l => (.ok (.definition l), s)
    | .error (.outOfRange e) => (.error (.outOfRange e), s)
    | .error (.noText e) => (.error (.noText e), s)
  | .symbols uri => (.ok (.symbols (s.symbolsOf uri)), s)
  | .folds uri => (.ok (.folds (s.foldsOf uri)), s)
  | .codeActions uri =>
    match s.codeActionsOf uri with
    | (.ok found, notes) => (.ok (.codeActions found), s.noteAll notes)
    | (.error e, notes) => (.error (.outOfRange e), s.noteAll notes)
  | .elapsed n => (.ok .done, s.wait n)

/-- One event, and then whatever has fallen due. -/
def step (s : Session) (e : Event) : Outcome :=
  let (reply, s) := s.handle e
  (reply, s.settle)

/-- The session after a list of events. -/
def run (s : Session) (events : List Event) : Session := events.foldl (fun s e => (s.step e).2) s

end Session
end TalkDeck
