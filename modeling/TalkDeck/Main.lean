import TalkDeck.Command.Lint
import TalkDeck.Settings.Environment

/-
The linter as a program: the directories it is pointed at are read into a file tree, the command
runs on that tree, and what it has made is written back.
-/

namespace TalkDeck
namespace Disk

open Lint

def textOf (place : Place) : String := "/" ++ String.intercalate "/" place

/-- Reads a place of the disk, and with `deep` everything below it. -/
partial def load (deep : Bool) (t : FileTree) (place : Place) : IO FileTree := do
  try
    let path ← IO.FS.realPath (textOf place)
    match (← path.metadata).type with
    | .dir =>
      let t := t.put place .directory
      if deep then (← path.readDir).foldlM (fun t e => load deep t (place ++ [e.fileName])) t
      else return t
    | .file =>
      let entry ← try pure (.file (← IO.FS.readBinFile path).toList) catch _ => pure .unreadable
      return t.put place entry
    | _ => return t
  catch _ => return t

/-- Reads the places on the way to a path. -/
def loadWay (t : FileTree) (p : Path) : IO FileTree :=
  let start := t.origin p
  (List.range (p.parts.length + 1)).foldlM
    (fun t n => load false t ((p.parts.take n).foldl FileTree.stepTo start)) t

/-- The part of the disk that a run can see. -/
def treeFor (s : State) : IO FileTree := do
  let here := (← IO.currentDir).components.filter (· != "")
  let mut t : FileTree := ⟨here, []⟩
  t ← loadWay t (Path.of ".")
  for p in s.input.toList ++ s.output.toList ++ s.output.toList.map (·.join (s.reportFile.getD "")) do
    t ← loadWay t p
  match s.input.map t.placeOf with
  | some (.ok place) => load true t place
  | _ => return t

/-- Writes what is new or changed, directories first. -/
def store (before after : FileTree) : IO Unit := do
  let new := after.entries.filter fun (place, e) => before.entryAt place != some e
  for (place, e) in new.mergeSort fun a b => decide (a.1.length ≤ b.1.length) do
    match e with
    | .directory => IO.FS.createDirAll (textOf place)
    | .file octets => IO.FS.writeBinFile (textOf place) ⟨octets.toArray⟩
    | .unreadable => pure ()

/-- The variables of the process that are settings. -/
def environment : IO (List (String × String)) :=
  Settings.names.filterMapM fun name => do
    let lower := Settings.variableOf name
    match ← IO.getEnv (lower.map Char.toUpper) with
    | some v => return some (lower, v)
    | none => return (← IO.getEnv lower).map (lower, ·)

def settingsFile : IO (Option String) := do
  try return some (← IO.FS.readFile ".env") catch _ => return none

end Disk
end TalkDeck

open TalkDeck

def main (args : List String) : IO UInt32 := do
  match Settings.load (← Disk.environment) (← Disk.settingsFile) with
  | .error complaints =>
    for c in complaints do IO.eprintln (c.place ++ ": " ++ c.defect.code)
    return 1
  | .ok settings =>
    let tree ← match Lint.command.parse args with
      | .ok g => Disk.treeFor (Lint.stateOf settings g)
      | .error _ => pure ⟨[], []⟩
    let ended := Lint.execute settings args tree
    Disk.store tree ended.tree
    IO.print ended.output
    for n in ended.journal do IO.eprintln (n.label ++ " " ++ n.text)
    IO.eprint ended.said
    match ended.status with
    | .ok status => return UInt32.ofNat status
    | .error e =>
      IO.eprintln e.message
      return 1
