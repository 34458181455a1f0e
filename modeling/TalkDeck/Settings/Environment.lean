import TalkDeck.Complaint
import TalkDeck.Number.Lenient
import TalkDeck.Settings
import TalkDeck.Settings.EnvFile
import TalkDeck.Text.Case

/-
Settings from the environment.  Each setting has a variable, whose case does not matter; variables
of the process go before those of a file, and a file may hold no others.
-/

namespace TalkDeck
namespace Settings

def lowered (s : String) : String := String.ofList (Text.lower s.toList)

/-- The names of the settings, in the order in which they are looked at. -/
def names : List String :=
  ["sequence_type", "diagnostic_source", "typo_distance_max", "debounce_ms", "client_request_timeout",
    "deck_pattern", "report_filename", "strict_mode"]

/-- The variable of a setting. -/
def variableOf (name : String) : String := "deckls_" ++ name

def readInt (s : String) : Except Defect Int :=
  (Lenient.int? s.toList).mapError fun
    | .malformed => .unreadableInteger
    | .tooLong => .oversizedInteger

def readSeconds (s : String) : Except Defect Seconds :=
  match Lenient.float? s.toList with
  | some x => .ok (.real x)
  | none => .error .unreadableNumber

def readTruth (s : String) : Except Defect Bool :=
  match Lenient.bool? s.toList with
  | some b => .ok b
  | none => .error .unreadableTruth

/-- The settings with one of them read from text. -/
def assign (s : Settings) (name value : String) : Except Defect Settings :=
  match name with
  | "sequence_type" => .ok { s with sequenceType := value }
  | "diagnostic_source" => .ok { s with diagnosticSource := value }
  | "typo_distance_max" => do return { s with typoDistance := ← readInt value }
  | "debounce_ms" => do return { s with debounceMs := ← readInt value }
  | "client_request_timeout" => do return { s with clientTimeout := ← readSeconds value }
  | "deck_pattern" => .ok { s with deckPattern := value }
  | "report_filename" => .ok { s with reportFile := value }
  | "strict_mode" => do return { s with strict := ← readTruth value }
  | _ => .ok s

/-- The variables of a process by their lowered names, the last one of a name first. -/
def processVariables (env : List (String × String)) : List (String × String) :=
  env.reverse.map fun (k, v) => (lowered k, v)

/-- The bindings of a file by their lowered names. -/
def fileVariables (env : List (String × String)) (file : String) : List EnvFile.Binding :=
  (EnvFile.resolve env.reverse (EnvFile.bindings file.toList)).foldl
    (fun bs (k, v) => EnvFile.put bs (lowered k, v)) []

/-- The variables of a file that are no settings.  An empty one does no harm. -/
def strays (file : List EnvFile.Binding) : List Complaint :=
  (file.filter fun (k, v) =>
    (v.any (!·.isEmpty)) && !names.contains k && !(names.map variableOf).contains k).map
    fun (k, _) => ⟨k, .unexpected⟩

/-- The settings from the variables of the process and of a file, or everything that is wrong. -/
def load (env : List (String × String)) (file : Option String) : Except (List Complaint) Settings :=
  let process := processVariables env
  let bound := (file.map (fileVariables env)).getD []
  let value? (name : String) : Option String :=
    match process.lookup (variableOf name) with
    | some v => some v
    | none => (bound.lookup (variableOf name)).bind id
  let (settings, complaints) := names.foldl (fun (s, cs) name =>
    match value? name with
    | none => (s, cs)
    | some v =>
      match assign s name v with
      | .ok s => (s, cs)
      | .error d => (s, cs ++ [⟨name, d⟩])) (({} : Settings), ([] : List Complaint))
  match complaints ++ strays bound with
  | [] => .ok settings
  | all => .error all

end Settings
end TalkDeck
