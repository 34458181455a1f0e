import TalkDeck.Command.Parse
import TalkDeck.Lint.Run

/-
The linter's command: two directories and a few options.
-/

namespace TalkDeck
namespace Lint

/-- The options that callers of any kind may add are accepted and have no effect. -/
def command : Command where
  program := "deckls"
  version := release
  options :=
    [⟨["-h", "--help"], .help⟩, ⟨["--pattern"], .text⟩, ⟨["--reportFile"], .text⟩,
      ⟨["--strict"], .switch⟩, ⟨["-v", "--verbosity"], .count⟩, ⟨["-V", "--version"], .version⟩,
      ⟨["--saveinputmeta"], .switch⟩, ⟨["--saveoutputmeta"], .switch⟩]
  positionals := ["inputdir", "outputdir"]

/-- The state that a run starts with. -/
def stateOf (settings : Settings) (g : Given) : State where
  input := (g.positionals[0]?.getD none).map Path.of
  output := (g.positionals[1]?.getD none).map Path.of
  verbosity := 1 + g.count "--verbosity"
  pattern := (g.value? "--pattern").getD (some settings.deckPattern)
  reportFile := (g.value? "--reportFile").getD (some settings.reportFile)
  strict := settings.strict || g.has "--strict"

def mustBeDirectory (p : Path) : Work Unit := do
  if !(← Work.pass ((← Work.tree).isDirectory p)) then Work.refuse ("Not a directory: " ++ p.text)

/-- Makes the output directory, and makes sure that both directories are there, the output first. -/
def openDirectories (input output : Path) : Work Unit := do
  match ← Work.pass ((← Work.tree).find? output) with
  | some _ => mustBeDirectory output
  | none => Work.makeDirectory output false
  mustBeDirectory input

/-- A whole run. -/
def runAll (settings : Settings) (s : State) : Work State := do
  match s.input, s.output with
  | some input, some output => openDirectories input output
  | _, _ => Work.fail .noOutputName
  runStages settings Stage.all s

/-- How a command ended: its status unless it failed, what it wrote, and the world after it. -/
structure Ended where
  status : Except Failure Nat
  output : String
  said : String
  tree : FileTree
  journal : Journal

/-- Runs the command on a file tree. -/
def execute (settings : Settings) (args : List String) (tree : FileTree) : Ended :=
  match command.parse args with
  | .error stop => ⟨.ok stop.exitCode, stop.output command, stop.complaint command, tree, []⟩
  | .ok g =>
    let s := stateOf settings g
    let (r, w) := (runAll settings s).outcome { tree }
    let status := match r with
      | .ok _ => .ok 0
      | .error (.exit n) => .ok n
      | .error (.failure e) => .error e
    ⟨status, "", w.said, w.tree, Journal.shown (some s.verbosity) w.journal⟩

end Lint
end TalkDeck
