import TalkDeck.Catalog.Basic
import TalkDeck.Deck.Document
import TalkDeck.Workspace.Index
import TalkDeck.Yaml.Display

/-
Where the thing under the cursor is defined: the file a path names, or the launch configuration a
name stands for.
-/

namespace TalkDeck
namespace Definition

open Workspace

/-- Why a definition cannot be told: it lies beyond the limit, or what refers to it has no text. -/
inductive Failure where
  | outOfRange (e : OutOfRange)
  | noText (e : Yaml.NoText)
deriving DecidableEq, Repr

/-- The start of the file of a path, if the index has it. -/
def file? (i : Index) (path : String) : Option Location :=
  ((i.resolve? path).filter (!·.isEmpty)).map fun uri => ⟨uri, Range.point 0 0⟩

/-- What a parameter's value refers to, by the kind of its specification. -/
def target (limits : Limits) (i : Index) (s : ParameterSpec) (p : Parameter) :
    Except Failure (Option Location) := do
  match s.completion with
  | some .file => return file? i (← (p.value.text limits).mapError .noText)
  | some .launchConfig =>
    (i.launchAt (← (p.value.text limits).mapError .noText)).mapError .outOfRange
  | _ => return none

/-- The target of the first parameter with one whose value holds the position. -/
def ofParameters (limits : Limits) (i : Index) (s : ActionSpec) (p : Position) :
    List Parameter → Except Failure (Option Location)
  | [] => .ok none
  | q :: qs =>
    match (if q.valueRange.holds p then s.parameter? q.key else none) with
    | none => ofParameters limits i s p qs
    | some spec => do
      match ← target limits i spec q with
      | some l => return some l
      | none => ofParameters limits i s p qs

/-- The target among the parameters of an action, if the action's range holds the position. -/
def ofAction (limits : Limits) (c : Catalog) (i : Index) (p : Position) (range : Range)
    (type : Option String) (ps : List Parameter) : Except Failure (Option Location) :=
  match (if range.holds p then (namedType type).bind c.spec? else none) with
  | none => .ok none
  | some s => ofParameters limits i s p ps

/-- The file that the path of a link names. -/
def ofLink (i : Index) (p : Position) (l : Inline) : Option Location :=
  if l.range.holds p then
    match l.params.lookup "path" with
    | some q => if q.range.holds p then file? i q.value else none
    | none => none
  else none

/-- The first result among attempts made in order. -/
def first {ε α : Type} : List (Unit → Except ε (Option α)) → Except ε (Option α)
  | [] => .ok none
  | f :: fs => do
    match ← f () with
    | some a => return some a
    | none => first fs

/-- The attempts of a slide: each block and then its steps, and then the links. -/
def attempts (limits : Limits) (c : Catalog) (i : Index) (p : Position) (s : Slide) :
    List (Unit → Except Failure (Option Location)) :=
  s.blocks.flatMap (fun b =>
      (fun _ => ofAction limits c i p b.contentRange b.actionType b.parameters) ::
        b.steps.map fun t _ => ofAction limits c i p t.range t.actionType t.parameters) ++
    s.links.map fun l _ => .ok (ofLink i p l)

/-- The definition of what stands at a position. -/
def locate (limits : Limits) (c : Catalog) (i : Index) (d : Document) (p : Position) :
    Except Failure (Option Location) :=
  first (d.slides.flatMap (attempts limits c i p))

end Definition
end TalkDeck
