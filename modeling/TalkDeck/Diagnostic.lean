import TalkDeck.Catalog.Basic
import TalkDeck.Deck.Document
import TalkDeck.Settings

/-
What is wrong with a deck.  A finding is an issue at a range; a diagnostic is a finding in the words
of the editor.  Of a block's checks each one that fails ends the later ones.
-/

namespace TalkDeck

inductive Severity where
  | error
  | warning
  | hint
deriving DecidableEq, Repr

/-- The number editors use for a severity. -/
def Severity.code : Severity → Nat
  | error => 1
  | warning => 2
  | hint => 4

inductive Issue where
  | brokenYaml (message : String)
  | missingType
  | unknownType (type : String)
  | missingParam (name : String)
  | unknownParam (key type : String)
  | stepMissingType
  | stepUnknownType (type : String)
  | stepMissingParam (name : String)
  | stepUnknownParam (key type : String)
  | unclosedBlock
  | linkUnknownType (type : String)
  | linkUnknownParam (key type : String)
  | renderUnknownType (type : String)
  | renderUnknownParam (key type : String)
  | emptyBlock
deriving DecidableEq, Repr

namespace Issue

def code : Issue → String
  | brokenYaml _ => "ET001"
  | missingType => "ET002"
  | unknownType _ => "ET003"
  | missingParam _ => "ET004"
  | unknownParam _ _ => "ET005"
  | stepMissingType => "ET006"
  | stepUnknownType _ => "ET007"
  | stepMissingParam _ => "ET008"
  | stepUnknownParam _ _ => "ET009"
  | unclosedBlock => "ET010"
  | linkUnknownType _ => "ET011"
  | linkUnknownParam _ _ => "ET012"
  | renderUnknownType _ => "ET013"
  | renderUnknownParam _ _ => "ET014"
  | emptyBlock => "ET015"

def severity : Issue → Severity
  | unknownParam _ _ | stepUnknownParam _ _ | linkUnknownParam _ _ | renderUnknownParam _ _
  | unclosedBlock => .warning
  | emptyBlock => .hint
  | _ => .error

def message : Issue → String
  | brokenYaml m => m
  | missingType => "Action block must have a 'type' field"
  | unknownType t => "Unknown action type: '" ++ t ++ "'"
  | missingParam p => "Missing required parameter: '" ++ p ++ "'"
  | unknownParam k t => "Unknown parameter '" ++ k ++ "' for action type '" ++ t ++ "'"
  | stepMissingType => "Each step must have a 'type' field"
  | stepUnknownType t => "Unknown action type in step: '" ++ t ++ "'"
  | stepMissingParam p => "Step missing required parameter: '" ++ p ++ "'"
  | stepUnknownParam k t => "Unknown parameter '" ++ k ++ "' for step type '" ++ t ++ "'"
  | unclosedBlock => "Unclosed action block: missing closing fence"
  | linkUnknownType t => "Unknown action type in inline link: '" ++ t ++ "'"
  | linkUnknownParam k t => "Unknown parameter '" ++ k ++ "' for action type '" ++ t ++ "'"
  | renderUnknownType t => "Unknown render type: '" ++ t ++ "'"
  | renderUnknownParam k t => "Unknown parameter '" ++ k ++ "' for render type '" ++ t ++ "'"
  | emptyBlock => "Empty action block"

end Issue

structure Finding where
  issue : Issue
  range : Range
deriving DecidableEq, Repr

/-- The code of a diagnostic as a client may send it. -/
inductive DiagnosticCode where
  | text (s : String)
  | number (i : Int)
deriving DecidableEq, Repr

/-- A diagnostic as it goes between editor and server; a client may leave out all but the first
two. -/
structure Diagnostic where
  range : Range
  message : String
  severity : Option Severity := none
  code : Option DiagnosticCode := none
  source : Option String := none
deriving DecidableEq, Repr

def Finding.diagnostic (source : String) (f : Finding) : Diagnostic where
  range := f.range
  message := f.issue.message
  severity := some f.issue.severity
  code := some (.text f.issue.code)
  source := some source

/-- The parameters that an action needs and `present` lacks. -/
def missingOf (c : Catalog) (type : String) (present : List Parameter) : List String :=
  (c.required type).filter fun name => !present.any (·.key == name)

/-- The parameters that an action does not take. -/
def unknownOf (c : Catalog) (type : String) (present : List Parameter) : List Parameter :=
  present.filter fun p => !(c.names type).contains p.key && !isMetaField p.key

namespace Step

def findings (c : Catalog) (s : Step) : List Finding :=
  match namedType s.actionType with
  | none =>
    let line := s.range.start.line
    [⟨.stepMissingType, Range.onLine line 0 20⟩]
  | some type =>
    if c.knows type then
      (missingOf c type s.parameters).map
          (fun name => ⟨.stepMissingParam name, Range.point s.range.stop.line 0⟩) ++
        (unknownOf c type s.parameters).map fun p => ⟨.stepUnknownParam p.key type, p.keyRange⟩
    else [⟨.stepUnknownType type, s.typeRange.getD s.range⟩]

end Step

namespace Block

/-- Whether the block has no key at all. -/
def isEmpty (b : Block) : Bool :=
  (b.value?.bind (·.entries?)).all (·.isEmpty) || Text.allBlank b.text

/-- The findings of a block with a known type. -/
def typedFindings (c : Catalog) (sequenceType type : String) (b : Block) : List Finding :=
  (missingOf c type b.parameters).map
      (fun name => ⟨.missingParam name, Range.point b.contentRange.stop.line 0⟩) ++
    (unknownOf c type b.parameters).map (fun p => ⟨.unknownParam p.key type, p.keyRange⟩) ++
    if type = sequenceType then b.steps.flatMap (·.findings c) else []

/-- The findings about what a block holds. -/
def contentFindings (c : Catalog) (sequenceType : String) (b : Block) : List Finding :=
  match b.error? with
  | some e => [⟨.brokenYaml e.message, e.range⟩]
  | none =>
    if b.isEmpty then [⟨.emptyBlock, b.range⟩]
    else
      match namedType b.actionType with
      | none =>
        [⟨.missingType,
          Range.onLine b.contentRange.start.line 0 ((Text.lines b.text).headD []).length⟩]
      | some type =>
        if c.knows type then b.typedFindings c sequenceType type
        else [⟨.unknownType type, b.typeRange.getD b.contentRange⟩]

def findings (c : Catalog) (sequenceType : String) (b : Block) : List Finding :=
  (if b.unclosed then [⟨.unclosedBlock, Range.onLine b.range.start.line 0 10⟩] else []) ++
    b.contentFindings c sequenceType

end Block

namespace Inline

/-- The findings of a link that runs an action. -/
def linkFindings (c : Catalog) (l : Inline) : List Finding :=
  if c.knows l.type then
    (l.params.filter fun (k, _) => !(c.names l.type).contains k && !isMetaField k).map
      fun (k, p) => ⟨.linkUnknownParam k l.type, p.range⟩
  else [⟨.linkUnknownType l.type, l.typeRange⟩]

/-- The findings of a render directive. -/
def renderFindings (d : Inline) : List Finding :=
  match renderSpec? d.type with
  | none => [⟨.renderUnknownType d.type, d.typeRange⟩]
  | some s =>
    (d.params.filter fun (k, _) => !s.parameters.contains k).map
      fun (k, p) => ⟨.renderUnknownParam k d.type, p.range⟩

end Inline

namespace Slide

/-- The findings of a slide: blocks, then links, then directives. -/
def findings (c : Catalog) (sequenceType : String) (s : Slide) : List Finding :=
  s.blocks.flatMap (·.findings c sequenceType) ++ s.links.flatMap (·.linkFindings c) ++
    s.directives.flatMap (·.renderFindings)

end Slide

namespace Document

def findings (c : Catalog) (sequenceType : String) (d : Document) : List Finding :=
  d.slides.flatMap (·.findings c sequenceType)

/-- The diagnostics of a deck, in the order of its slides. -/
def diagnostics (c : Catalog) (s : Settings) (d : Document) : List Diagnostic :=
  (d.findings c s.sequenceType).map (·.diagnostic s.diagnosticSource)

end Document
end TalkDeck
