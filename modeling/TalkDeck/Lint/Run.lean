import TalkDeck.Catalog.Standard
import TalkDeck.Journal
import TalkDeck.Lint.Glob
import TalkDeck.Lint.Report
import TalkDeck.Text.Newline

/-
A lint run in stages: find the decks, read them, check them, write the report, and sum up.  Each
stage adds to the state of the run; a stage can end the run with a status, or fail.
-/

namespace TalkDeck
namespace Lint

/-- The state of a run. -/
structure State where
  input : Option Path
  output : Option Path
  verbosity : Int := 1
  /-- Which files are decks; none when the option was left without a value. -/
  pattern : Option String := some "**/*.deck.md"
  /-- Where the report goes; none when the option was left without a value. -/
  reportFile : Option String := some "diagnostics.json"
  strict : Bool := false
  ready : Bool := false
  decks : List Path := []
  documents : List (Path × Document) := []
  findings : Option Findings := none
  reportPath : Path := Path.of "/"
  errors : Int := 0
  warnings : Int := 0
deriving DecidableEq, Repr

/-- Failures that no status tells about. -/
inductive Failure where
  | pattern (e : PatternFault)
  | markup (e : Yaml.Abort)
  | obstacle (o : Obstacle)
  /-- An output directory whose name no directory can have. -/
  | nulInOutput
  /-- A report whose name no file can have. -/
  | nulInReport
  /-- No output directory when it is to be made. -/
  | noOutputToMake
  /-- No output directory when the report is to be written. -/
  | noOutputToWrite
  /-- No name of a report. -/
  | noReportFile
  /-- An output directory without a name. -/
  | noOutputName
deriving DecidableEq, Repr

namespace Failure

def message : Failure → String
  | pattern e => e.message
  | markup e => e.message
  | obstacle o => o.message
  | nulInOutput => "mkdir: embedded null character in path"
  | nulInReport => "embedded null byte"
  | noOutputToMake => "'NoneType' object has no attribute 'mkdir'"
  | noOutputToWrite => "unsupported operand type(s) for /: 'NoneType' and 'str'"
  | noReportFile => "unsupported operand type(s) for /: 'PosixPath' and 'list'"
  | noOutputName => "expected str, bytes or os.PathLike object, not list"

end Failure

/-- How a run ends early. -/
inductive Halt where
  | exit (status : Nat)
  | failure (e : Failure)
deriving DecidableEq, Repr

/-- What a run changes: the files, what it says, and its notes. -/
structure World where
  tree : FileTree
  said : String := ""
  journal : Journal := []
deriving DecidableEq, Repr

abbrev Work := ExceptT Halt (StateM World)

namespace Work

def note (level : Int) (text : String) : Work Unit :=
  modify fun w => { w with journal := w.journal ++ [⟨level, text⟩] }

/-- Says something and ends with a status that tells of a failure. -/
def refuse {α : Type} (text : String) : Work α := do
  modify fun w => { w with said := w.said ++ text ++ "\n" }
  throw (.exit 1)

def fail {α : Type} (e : Failure) : Work α := throw (.failure e)

def tree : Work FileTree := do return (← get).tree

def setTree (tree : FileTree) : Work Unit := modify fun w => { w with tree }

/-- Goes on unless there is an obstacle. -/
def pass {α : Type} : Except Obstacle α → Work α
  | .ok a => return a
  | .error o => fail (.obstacle o)

/-- Makes a directory and all above it; with `keep` it may exist already. -/
def makeDirectory (p : Path) (keep : Bool) : Work Unit := do
  if p.hasNul then fail .nulInOutput
  let (t, obstacle) := (← tree).makeDirectory p keep
  setTree t
  match obstacle with
  | none => return
  | some o => fail (.obstacle o)

end Work

def backtick : String := String.singleton (Char.ofNat 0x60)

/-- The title shown at high verbosity. -/
def banner : String :=
  "\n     _           _    _\n  __| | ___  ___| | _| |___\n / _" ++ backtick ++
    " |/ _ \\/ __| |/ / / __|\n| (_| |  __/ (__|   <| \\__ \\\n \\__,_|\\___|\\___|_|\\_\\_|___/\n\n" ++
    "  Deck structure linter\n"

/-! ### Stages -/

/-- The input directory, which must exist. -/
def inputOf (s : State) : Work Path := do
  match s.input with
  | some input =>
    if ← Work.pass ((← Work.tree).isDirectory input) then return input
    else Work.refuse ("Error: Input directory not found: " ++ input.text)
  | none => Work.refuse "Error: Input directory not found: None"

/-- Finds the decks and makes the output directory. -/
def check (s : State) : Work State := do
  if 2 ≤ s.verbosity then Work.note 2 banner
  Work.note 2 "Checking environment..."
  let input ← inputOf s
  match Glob.selectors s.pattern with
  | .error e => Work.fail (.pattern e)
  | .ok selectors =>
    let decks ← Work.pass (Glob.files (← Work.tree) input selectors)
    if decks.isEmpty then
      Work.refuse ("Error: No decks matching '" ++ s.pattern.getD "" ++ "' in " ++ input.text)
    Work.note 2 ("Found " ++ toString decks.length ++ " deck(s)")
    match s.output with
    | none => Work.fail .noOutputToMake
    | some output =>
      Work.makeDirectory output true
      Work.note 2 ("Output directory: " ++ output.text)
      return { s with decks, ready := true }

/-- Why a deck cannot be read. -/
inductive Unreadable where
  | trouble (e : Trouble)
  | denied
  | notUtf8 (e : Text.Utf8.Fault)
deriving DecidableEq, Repr

/-- The text of a file, whose line ends are unified. -/
def readText (t : FileTree) (p : Path) : Except Unreadable String :=
  match t.placeOf p with
  | .error e => .error (.trouble e)
  | .ok place =>
    match t.entryAt place with
    | none => .error (.trouble .missing)
    | some .directory => .error (.trouble .isDirectory)
    | some .unreadable => .error .denied
    | some (.file octets) =>
      match Text.Utf8.decode octets with
      | .ok cs => .ok (String.ofList (Text.unifyNewlines cs))
      | .error e => .error (.notUtf8 e)

def unreadableMessage (p : Path) : Unreadable → String
  | .trouble e => e.message p
  | .denied => "[Errno 13] Permission denied: " ++ Text.quoted p.text
  | .notUtf8 e => e.message

/-- The URI under which a deck is read. -/
def deckUri (t : FileTree) (p : Path) : String :=
  match t.placeOf p with
  | .ok place => FileTree.uriOf place
  | .error _ => FileTree.uriOf p.parts

/-- Reads one deck. -/
def readDeck (settings : Settings) (p : Path) : Work Document := do
  let t ← Work.tree
  match readText t p with
  | .error e => Work.refuse ("Error reading deck " ++ p.text ++ ": " ++ unreadableMessage p e)
  | .ok text =>
    match Document.create settings.limits (deckUri t p) 1 text settings.sequenceType with
    | .error e => Work.fail (.markup e)
    | .ok d =>
      Work.note 2 (p.name ++ ": " ++ toString d.slides.length ++ " slides")
      return d

/-- Reads decks in order. -/
def readDecks (settings : Settings) : List Path → Work (List (Path × Document))
  | [] => return []
  | p :: ps => do
    let d ← readDeck settings p
    return (p, d) :: (← readDecks settings ps)

/-- Reads every deck that was found. -/
def parse (settings : Settings) (s : State) : Work State := do
  Work.note 1 "Parsing decks..."
  return { s with documents := ← readDecks settings s.decks }

/-- The diagnostics of documents under the standard catalog. -/
def findingsOf (settings : Settings) (documents : List (Path × Document)) : Findings :=
  documents.map fun (p, d) => (p, d.diagnostics (Catalog.standard settings.sequenceType) settings)

/-- Checks every document. -/
def inspect (settings : Settings) (s : State) : Work State := do
  Work.note 1 "Computing diagnostics..."
  let found := findingsOf settings s.documents
  for (p, ds) in found do
    Work.note 2 (p.name ++ ": " ++ toString ds.length ++ " diagnostic(s)")
  return { s with findings := some found }

/-- Writes the report and counts errors and warnings. -/
def writeReport (s : State) : Work State := do
  match s.findings with
  | none => Work.refuse "Error: No diagnostics available"
  | some found =>
    let errors := s.errors + found.count .error
    let warnings := s.warnings + found.count .warning
    match s.output, s.reportFile with
    | none, _ => Work.fail .noOutputToWrite
    | some _, none => Work.fail .noReportFile
    | some output, some name =>
      let path := output.join name
      if path.hasNul then Work.fail .nulInReport
      let text := (report (s.input.getD ⟨"", []⟩) found errors warnings).pretty
      match (← Work.tree).write path (Text.Utf8.encode text.toList) with
      | .error o => Work.refuse ("Error writing report: " ++ o.message)
      | .ok t =>
        Work.setTree t
        Work.note 2 ("Report written to " ++ path.text)
        return { s with errors, warnings, reportPath := path }

/-- Whether a run counts as failed. -/
def State.failed (s : State) : Bool := s.errors != 0 || (s.strict && s.warnings != 0)

/-- Sums up, and sets the status. -/
def summarize (s : State) : Work State := do
  Work.note 1 ("\n" ++ toString s.documents.length ++ " deck(s) checked")
  Work.note 1 ("  Errors:   " ++ toString s.errors)
  Work.note 1 ("  Warnings: " ++ toString s.warnings)
  Work.note 1 ("  Report:   " ++ s.reportPath.text)
  if s.failed then throw (.exit 1)
  Work.note 1 "\n✓ All decks passed"
  return s

inductive Stage where
  | check
  | parse
  | inspect
  | writeReport
  | summarize
deriving DecidableEq, Repr

/-- The stages of a whole run. -/
def Stage.all : List Stage := [check, parse, inspect, writeReport, summarize]

def Stage.run (settings : Settings) : Stage → State → Work State
  | check, s => Lint.check s
  | parse, s => Lint.parse settings s
  | inspect, s => Lint.inspect settings s
  | writeReport, s => Lint.writeReport s
  | summarize, s => Lint.summarize s

/-- Runs stages one after the other. -/
def runStages (settings : Settings) : List Stage → State → Work State
  | [], s => return s
  | stage :: stages, s => do runStages settings stages (← stage.run settings s)

/-- The result of some work from a world. -/
def Work.outcome {α : Type} (work : Work α) (w : World) : Except Halt α × World :=
  (ExceptT.run work).run w

end Lint
end TalkDeck
