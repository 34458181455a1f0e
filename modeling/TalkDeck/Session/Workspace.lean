import TalkDeck.Session.Basic

/-
The workspace index of a session: asked of the client, and kept up to date from file events.
-/

namespace TalkDeck
namespace Session

open Workspace

def filesRequest : String := "executableTalk/workspaceFiles"

def launchRequest : String := "executableTalk/launchConfigs"

/-- Asks the client for a listing.  A client that refuses or stays silent has nothing to list, and
a session that grants no time does not ask at all. -/
def request (s : Session) (method : String) (answer : Answer) : Payload × Session :=
  let late : Note :=
    ⟨1, "Client did not answer " ++ method ++ " within " ++ s.settings.clientTimeout.text ++ "s"⟩
  if !s.settings.clientTimeout.isPositive then (.null, s.note late)
  else
    let s := { s with requested := s.requested ++ [method] }
    match answer with
    | .value p => (p, s)
    | .refused message => (.null, s.note ⟨1, "Client rejected " ++ method ++ ": " ++ message⟩)
    | .silent => (.null, (s.wait s.settings.clientTimeout.nanoseconds.toNat).note late)

/-- Asks for the launch configurations. -/
def refreshLaunch (s : Session) (launch : Answer) : Except ListingFault Unit × Session :=
  match s.index with
  | none => (.ok (), s)
  | some i =>
    let (listing, s) := s.request launchRequest launch
    match i.loadLaunch s.settings.limits listing with
    | (.error e, notes) => (.error e, s.noteAll notes)
    | (.ok i, notes) => (.ok (), { s.noteAll notes with index := some i })

/-- Asks for the files and then for the launch configurations. -/
def refresh (s : Session) (files launch : Answer) : Except ListingFault Unit × Session :=
  match s.index with
  | none => (.ok (), s)
  | some i =>
    let (listing, s) := s.request filesRequest files
    match i.loadFiles s.settings.limits listing with
    | (.error e, notes) => (.error e, s.noteAll notes)
    | (.ok i, notes) =>
      match { s.noteAll notes with index := some i }.refreshLaunch launch with
      | (.error e, s) => (.error e, s)
      | (.ok (), s) =>
        let configs := (s.index.map (·.launch)).getD []
        (.ok (), s.note ⟨1, "Workspace index: " ++ toString i.files.length ++ " file(s), " ++
          toString configs.length ++ " launch config(s)"⟩)

inductive FileEvent where
  | created (uri : String)
  | changed (uri : String)
  | deleted (uri : String)
deriving DecidableEq, Repr

def FileEvent.uri : FileEvent → String
  | created uri => uri
  | changed uri => uri
  | deleted uri => uri

/-- An index after an event.  Only files below the root are added. -/
def indexAfter (i : Index) : FileEvent → Index
  | .created uri =>
    match i.relative? uri with
    | some path => i.add ⟨path, uri⟩
    | none => i
  | .changed _ => i
  | .deleted uri => i.remove uri

/-- Whether an event is about a file of launch configurations. -/
def touchesLaunch (e : FileEvent) : Bool :=
  (Text.strip? "launch.json".toList.reverse e.uri.toList.reverse).isSome

/-- Follows file events.  Launch configurations are asked for again once at the end. -/
def watch (s : Session) (events : List FileEvent) (launch : Answer) :
    Except ListingFault Unit × Session :=
  match s.index with
  | none => (.ok (), s)
  | some i =>
    let s := { s with index := some (events.foldl indexAfter i) }
    if events.any touchesLaunch then s.refreshLaunch launch else (.ok (), s)

end Session
end TalkDeck
