import TalkDeck.Proofs.Lint.Stages

/-
The report of a run against its status.

What a report says is read back from the report alone: `listed` are the diagnostics of all its entries,
and `tally` counts those of one severity.  `execute_reports` is about the whole command: it writes one
entry for each deck, its summary is the tally of its own entries, and its status follows from the
summary; a deck that cannot be read ends it with a status of one and without a report.
-/

namespace TalkDeck
namespace Lint

variable {settings : Settings} {args : List String} {g : Given} {t : FileTree} {k : Plan}

/-! ## Reading a report -/

/-- The diagnostics of all entries of a report. -/
def listed (report : Json) : List Json :=
  match report.get? "decks" with
  | some (.obj entries) => entries.flatMap fun
    | (_, .arr ds) => ds
    | _ => []
  | _ => []

/-- Whether a diagnostic as written has a severity. -/
def hasSeverity (severity : Severity) (diagnostic : Json) : Bool :=
  match diagnostic.get? "severity" with
  | some (.int n) => n == severity.code
  | _ => false

/-- How many diagnostics of a report have a severity. -/
def tally (severity : Severity) (report : Json) : Nat := (listed report).countP (hasSeverity severity)

theorem hasSeverity_diagnostic (severity : Severity) (d : Diagnostic) :
    hasSeverity severity (Wire.diagnostic d) = (d.severity == some severity) := by
  cases hd : d.severity with
  | none =>
    unfold hasSeverity Wire.diagnostic
    rw [hd]
    cases d.code <;> cases d.source <;> rfl
  | some found =>
    have hget : (Wire.diagnostic d).get? "severity" = some (.int found.code) := by
      unfold Wire.diagnostic
      rw [hd]
      rfl
    unfold hasSeverity
    rw [hget]
    cases found <;> cases severity <;> rfl

theorem listed_report (base : Path) (found : Findings) (errors warnings : Int) :
    listed (report base found errors warnings) = (found.flatMap (·.2)).map Wire.diagnostic := by
  show (found.map _).flatMap _ = _
  rw [List.flatMap_map, List.map_flatMap]

/-- Counting on paper is counting the findings. -/
theorem tally_report (severity : Severity) (base : Path) (found : Findings) (errors warnings : Int) :
    tally severity (report base found errors warnings) = found.count severity := by
  rw [tally, listed_report, List.countP_map, Findings.count]
  congr 1
  funext d
  exact hasSeverity_diagnostic severity d

/-! ## The command -/

open Work

/-- The status of a run that ends in a result. -/
def statusOf : Except Halt State → Except Failure Nat
  | .ok _ => .ok 0
  | .error (.exit n) => .ok n
  | .error (.failure e) => .error e

theorem execute_of_gives {r : Except Halt State} {u : FileTree} (hargs : command.parse args = .ok g)
    (h : Gives (runAll settings (stateOf settings g)) t r u) :
    (execute settings args t).status = statusOf r ∧ (execute settings args t).tree = u := by
  obtain ⟨w, hw, htree⟩ := h { tree := t } rfl
  unfold execute
  rw [hargs]
  dsimp only
  rw [hw]
  exact ⟨rfl, htree⟩

/-- A report on documents as a command left it: one entry for each of them, a summary of these entries,
and a status that goes with the summary. -/
structure Tells (k : Plan) (settings : Settings) (strict : Bool)
    (documents : List (Path × Document)) (ended : Ended) (report : Json) : Prop where
  written : ended.tree.entryAt k.place = some (.file (Text.Utf8.encode report.pretty.toList))
  rest : ∀ place, place ≠ k.place → ended.tree.entryAt place = k.tree.entryAt place
  entries : report.get? "decks" = some (.obj (documents.map fun (p, d) =>
    (k.input.relativeTo p,
      .arr ((d.diagnostics (Catalog.standard settings.sequenceType) settings).map Wire.diagnostic))))
  distinct : (documents.map fun q => k.input.relativeTo q.1).Nodup
  summary : report.get? "summary" = some (.obj
    [("decks", .int documents.length), ("errors", .int (tally .error report)),
      ("warnings", .int (tally .warning report))])
  status : ended.status =
    .ok (if 0 < tally .error report ∨ (strict = true ∧ 0 < tally .warning report) then 1 else 0)

namespace Plan.Fits

/-- The decks of a plan have different names in its report. -/
theorem nodup_relativeTo (h : k.Fits (stateOf settings g) t) (ht : t.WellFormed) :
    (k.decks.map k.input.relativeTo).Nodup := by
  have hparts : ∀ part ∈ k.output.parts, Path.IsPart part := by
    obtain ⟨text, -, htext⟩ := Option.map_eq_some_iff.mp h.output
    rw [← htext]
    exact fun part hpart => Path.isPart_of_mem_of hpart
  obtain ⟨selectors, hselectors, hfiles⟩ := h.decks
  obtain ⟨hnodup, hbelow⟩ := Glob.files_spec (h.wellFormed hparts ht) hselectors hfiles
  refine List.Nodup.map_on ?_ hnodup
  intro p hp q hq heq
  exact Path.relativeTo_inj (hbelow p hp).1 (hbelow q hq).1 heq

theorem place_ne_nil {s : State} (h : k.Fits s t) : k.place ≠ [] := by
  intro hnil
  have hfree := h.free
  rw [hnil] at hfree
  exact hfree rfl

end Plan.Fits

theorem failed_reported {s : State} (herrors : s.errors = 0) (hwarnings : s.warnings = 0)
    (documents : List (Path × Document)) (found : Findings) :
    (k.reported s documents found).failed = true ↔
      0 < found.count .error ∨ (s.strict = true ∧ 0 < found.count .warning) := by
  have hpos : ∀ n : Nat, 0 + (n : Int) ≠ 0 ↔ 0 < n := by omega
  unfold State.failed Plan.reported Plan.parsed
  dsimp only
  rw [herrors, hwarnings, Bool.or_eq_true, Bool.and_eq_true, bne_iff_ne, bne_iff_ne, hpos, hpos]

theorem tells_of_reads (hargs : command.parse args = .ok g) (ht : t.WellFormed)
    (h : k.Fits (stateOf settings g) t) {documents : List (Path × Document)}
    (hdecks : documents.map (·.1) = k.decks)
    (hreads : ∀ q ∈ documents, Reads settings k.tree q.1 q.2) :
    ∃ report, Tells k settings (stateOf settings g).strict documents (execute settings args t)
      report := by
  have hgives := gives_runAll h hdecks hreads
  generalize hfound : findingsOf settings documents = found at hgives
  obtain ⟨hstatus, htree⟩ := execute_of_gives hargs hgives
  refine ⟨report k.input found (0 + found.count .error) (0 + found.count .warning), ?_⟩
  constructor
  case written =>
    rw [htree]
    exact FileTree.entryAt_put_self h.place_ne_nil k.tree _
  case rest =>
    intro place hplace
    rw [htree]
    exact FileTree.entryAt_put_ne hplace k.tree _
  case entries =>
    rw [← hfound]
    show some (Json.obj ((findingsOf settings documents).map _)) = _
    rw [findingsOf, List.map_map]
    rfl
  case distinct =>
    have hnodup := h.nodup_relativeTo ht
    rw [← hdecks, List.map_map] at hnodup
    exact hnodup
  case summary =>
    have hlength : found.length = documents.length := by
      rw [← hfound, findingsOf, List.length_map]
    rw [tally_report, tally_report, ← hlength]
    show some (Json.obj [("decks", .int found.length), ("errors", .int (0 + found.count .error)),
      ("warnings", .int (0 + found.count .warning))]) = _
    rw [Int.zero_add, Int.zero_add]
  case status =>
    rw [hstatus, tally_report, tally_report]
    have hfailed := failed_reported (k := k) (s := stateOf settings g) rfl rfl documents found
    by_cases hcount : 0 < found.count .error ∨
        ((stateOf settings g).strict = true ∧ 0 < found.count .warning)
    · rw [if_pos hcount, if_pos (hfailed.mpr hcount)]
      rfl
    · rw [if_neg hcount, if_neg (fun hf => hcount (hfailed.mp hf))]
      rfl

theorem exists_documents (h : ∀ p ∈ k.decks, ∃ d, Reads settings k.tree p d) :
    ∃ documents : List (Path × Document), documents.map (·.1) = k.decks ∧
      ∀ q ∈ documents, Reads settings k.tree q.1 q.2 := by
  generalize k.decks = decks at h
  induction decks with
  | nil => exact ⟨[], rfl, nofun⟩
  | cons p decks ih =>
    obtain ⟨d, hd⟩ := h p List.mem_cons_self
    obtain ⟨documents, rfl, hall⟩ := ih fun q hq => h q (List.mem_cons_of_mem p hq)
    refine ⟨(p, d) :: documents, rfl, ?_⟩
    intro q hq
    rcases List.mem_cons.mp hq with rfl | hq
    · exact hd
    · exact hall q hq

/-- A run that finds decks and can write.  If every deck is read, the report and the status tell the
same; if one cannot be read and none before it fails, the status is one and no file is written. -/
theorem execute_reports (hargs : command.parse args = .ok g) (ht : t.WellFormed)
    (h : k.Fits (stateOf settings g) t) :
    ((∀ p ∈ k.decks, ∃ d, Reads settings k.tree p d) →
      ∃ documents report, documents.map (·.1) = k.decks ∧
        (∀ q ∈ documents, Reads settings k.tree q.1 q.2) ∧
        Tells k settings (stateOf settings g).strict documents (execute settings args t) report) ∧
    (∀ before p after, k.decks = before ++ p :: after →
      (∀ q ∈ before, ∀ text, readText k.tree q = .ok text →
        ∃ d, Document.create settings.limits (deckUri k.tree q) 1 text settings.sequenceType = .ok d) →
      (∀ text, readText k.tree p ≠ .ok text) →
      (execute settings args t).status = .ok 1 ∧
        ∀ place e, e ≠ .directory →
          ((execute settings args t).tree.entryAt place = some e ↔ t.entryAt place = some e)) := by
  constructor
  · intro hreads
    obtain ⟨documents, hdecks, hall⟩ := exists_documents hreads
    obtain ⟨report, htells⟩ := tells_of_reads hargs ht h hdecks hall
    exact ⟨documents, report, hdecks, hall, htells⟩
  · intro before p after hdecks hbefore hunread
    cases hp : readText k.tree p with
    | ok text => exact absurd hp (hunread text)
    | error e =>
      obtain ⟨hstatus, htree⟩ := execute_of_gives hargs (gives_runAll_unreadable h hdecks hbefore hp)
      refine ⟨hstatus, ?_⟩
      intro place e he
      rw [htree]
      exact h.grows.entryAt_iff place he

def untypedText : String := "\x60\x60\x60action\nlabel: x\n\x60\x60\x60"

/-- A directory with a deck, and another one further down whose action has no type, if it is readable
at all. -/
def twoDecks (readable : Bool) : FileTree where
  here := []
  entries :=
    [(["in"], .directory), (["in", "a.md"], .file (Text.Utf8.encode "# A".toList)),
      (["in", "b"], .directory),
      (["in", "b", "a.md"],
        if readable then .file (Text.Utf8.encode untypedText.toList) else .unreadable)]

def twoDecksGiven : Given where
  options := [("--pattern", some "**/a.md")]
  positionals := [some "in", some "out"]

def twoDecksPlan (readable : Bool) : Plan where
  input := Path.of "in"
  output := Path.of "out"
  decks := [⟨"", ["in", "a.md"]⟩, ⟨"", ["in", "b", "a.md"]⟩]
  report := ⟨"", ["out", "diagnostics.json"]⟩
  tree := (twoDecks readable).put ["out"] .directory
  place := ["out", "diagnostics.json"]

theorem wellFormed_twoDecks (readable : Bool) : (twoDecks readable).WellFormed where
  nodup := by decide +revert
  names := by decide +kernel +revert
  here := nofun

theorem fits_twoDecks (readable : Bool) :
    (twoDecksPlan readable).Fits (stateOf {} twoDecksGiven) (twoDecks readable) where
  input := rfl
  output := rfl
  report := ⟨"diagnostics.json", rfl, by decide +kernel +revert⟩
  opens := .made (by decide +kernel +revert) (by decide +kernel +revert) (by decide +kernel +revert)
  directory := by decide +kernel +revert
  decks := ⟨[.anyDepth, .name "a.md"], by decide +kernel, Glob.files_of_select
    (by decide +kernel +revert) (by decide +kernel +revert) (by decide +revert)⟩
  found := List.cons_ne_nil _ _
  nul := by decide +kernel +revert
  place := by decide +kernel +revert
  free := by decide +kernel +revert

theorem reads_firstDeck (readable : Bool) : ∃ d,
    Reads {} (twoDecksPlan readable).tree ⟨"", ["in", "a.md"]⟩ d := by
  have htext : readText (twoDecksPlan readable).tree ⟨"", ["in", "a.md"]⟩ = .ok "# A" := by
    decide +kernel +revert
  obtain ⟨d, hd, -⟩ :=
    exists_eq_ok_of_any (x := Document.create .usual "file:///in/a.md" 1 "# A" "sequence")
      (p := fun _ => true) (by decide +kernel)
  cases readable <;> exact ⟨d, "# A", htext, hd⟩

theorem reads_secondDeck : ∃ d, Reads {} (twoDecksPlan true).tree ⟨"", ["in", "b", "a.md"]⟩ d := by
  obtain ⟨d, hd, -⟩ := exists_eq_ok_of_any
    (x := Document.create .usual "file:///in/b/a.md" 1 untypedText "sequence") (p := fun _ => true)
    (by decide +kernel)
  exact ⟨d, untypedText, by decide +kernel, hd⟩

theorem execute_reports_twoDecks :
    (∃ documents report, documents.map (·.1) = (twoDecksPlan true).decks ∧
      (∀ q ∈ documents, Reads {} (twoDecksPlan true).tree q.1 q.2) ∧
      Tells (twoDecksPlan true) {} false documents
        (execute {} ["in", "out", "--pattern", "**/a.md"] (twoDecks true)) report) ∧
    (execute {} ["in", "out", "--pattern", "**/a.md"] (twoDecks false)).status = .ok 1 ∧
      ∀ place e, e ≠ .directory →
        ((execute {} ["in", "out", "--pattern", "**/a.md"] (twoDecks false)).tree.entryAt place =
          some e ↔ (twoDecks false).entryAt place = some e) := by
  have hargs : command.parse ["in", "out", "--pattern", "**/a.md"] = .ok twoDecksGiven := by
    decide +kernel
  constructor
  · refine (execute_reports hargs (wellFormed_twoDecks true) (fits_twoDecks true)).1 ?_
    intro p hp
    rcases List.mem_pair.mp hp with rfl | rfl
    · exact reads_firstDeck true
    · exact reads_secondDeck
  · refine (execute_reports hargs (wellFormed_twoDecks false) (fits_twoDecks false)).2
      [⟨"", ["in", "a.md"]⟩] ⟨"", ["in", "b", "a.md"]⟩ [] rfl ?_ ?_
    · intro q hq text htext
      obtain rfl := List.mem_singleton.mp hq
      obtain ⟨d, text', htext', hd⟩ := reads_firstDeck false
      obtain rfl := Except.ok.inj (htext.symm.trans htext')
      exact ⟨d, hd⟩
    · have hdenied : readText (twoDecksPlan false).tree ⟨"", ["in", "b", "a.md"]⟩ =
          .error .denied := by decide +kernel
      intro text htext
      cases htext.symm.trans hdenied

end Lint
end TalkDeck
